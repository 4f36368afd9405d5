import Blockchecks.RunnerClaims

namespace Blockchecks.RunnerIsolation

open Runs OrderedDict ScanWeights StrategyText AdaptiveQueue AdaptiveJobQueue BatchScheduler
  BridgeWorkerPool AdaptiveRunner QueueInvariant QueuePop RunnerSteps RunnerClaims

variable {k bridgeBatch : Nat}

def InFlight (s : Run k) (domain : String) : Prop :=
  ∃ w, ∃ job ∈ claimed (s.workers w), job.domain = domain

def Covers (s : Run k) : Prop :=
  ∀ w, ∀ job ∈ claimed (s.workers w), job.domain ∈ s.isolation.activeDomains

instance (s : Run k) : Decidable (Covers s) :=
  inferInstanceAs (Decidable (∀ w, ∀ job ∈ claimed (s.workers w),
    job.domain ∈ s.isolation.activeDomains))

/-- A pop hands out a domain that is in flight only when every pending job
outside the quarantine has its domain in flight. -/
def Polite (s : Run k) : Action k → Prop
  | .pop _ rng => ∀ job q,
      s.queue.pop (s.isolation.excludedSnapshot s.quarantined) rng = some (some job, q) →
      InFlight s job.domain → ∀ other ∈ s.queue.pending.values,
        other.domain ∉ s.quarantined → other.domain ∉ s.queue.excludedDomains →
        InFlight s other.domain
  | _ => True

def CleanRelease (s : Run k) : Action k → Prop
  | .release w => ∀ job ∈ releasedJobs (s.workers w).pc,
      (∀ w', w' ≠ w → ∀ other ∈ claimed (s.workers w'), other.domain ≠ job.domain) ∧
      ∀ other ∈ keptJobs (s.workers w).pc, other.domain ≠ job.domain
  | _ => True

instance (s : Run k) : (a : Action k) → Decidable (CleanRelease s a)
  | .release w => inferInstanceAs (Decidable (∀ job ∈ releasedJobs (s.workers w).pc,
      (∀ w', w' ≠ w → ∀ other ∈ claimed (s.workers w'), other.domain ≠ job.domain) ∧
      ∀ other ∈ keptJobs (s.workers w).pc, other.domain ≠ job.domain))
  | .setStop | .start _ | .move _ | .pop _ _ | .batchReturns _ _ | .account _ _
  | .singleReturns _ _ _ => isTrue trivial

/-- What every run with isolation keeps: an active domain is in flight or
quarantined. -/
structure Tracked (s : Run k) : Prop where
  sound : Sound s
  enabled : s.isolation.enabled = true
  active : ∀ d ∈ s.isolation.activeDomains, d ∈ s.quarantined ∨ InFlight s d

theorem step_tracked {s t : Run k} {a : Action k} (hs : Tracked s)
    (ht : step bridgeBatch s a = some t) : Tracked t := by
  have heff := step_effect hs.sound.sane ht
  have hq := effect_quarantined heff
  have hc := effect_claims hs.sound.sane heff
  refine ⟨effect_sound hs.sound heff, hc.enabled.trans hs.enabled, ?_⟩
  intro d hd
  cases hc with
  | quiet _ _ hi hsame =>
      rcases hs.active d (hi ▸ hd) with hd | ⟨w, job, hj, he⟩
      · exact Or.inl (hq hd)
      · exact Or.inr ⟨w, job, (hsame w).symm ▸ hj, he⟩
  | pop w rng q job _ _ _ _ hact hclaim hsame =>
      rw [hact] at hd
      rcases Finset.mem_insert.mp hd with rfl | hd
      · exact Or.inr ⟨w, job, by simp [hclaim], rfl⟩
      rcases hs.active d hd with hd | ⟨w', j, hj, he⟩
      · exact Or.inl (hq hd)
      refine Or.inr ⟨w', j, ?_, he⟩
      by_cases hw : w' = w
      · rw [hw, hclaim]
        exact List.mem_append_left _ (hw ▸ hj)
      · rw [hsame w' hw]
        exact hj
  | release w _ _ hi hclaim _ hsame =>
      rw [hi, DomainIsolationPool.mem_releaseDomains hs.enabled] at hd
      rcases hs.active d hd.1 with hd | ⟨w', j, hj, he⟩
      · exact Or.inl (hq hd)
      refine Or.inr ⟨w', j, ?_, he⟩
      by_cases hw : w' = w
      · rw [hw, hclaim] at hj
        rcases List.mem_append.mp hj with hrel | hkept
        · exact absurd (List.mem_map.mpr ⟨j, hrel, he⟩) hd.2
        · exact hw ▸ hkept
      · rw [hsame w' hw]
        exact hj

/-- A covered state stays covered exactly through clean releases. -/
theorem covers_next {s t : Run k} {a : Action k} (hs : Tracked s) (hcov : Covers s)
    (ht : step bridgeBatch s a = some t) : Covers t ↔ CleanRelease s a := by
  cases effect_claims hs.sound.sane (step_effect hs.sound.sane ht) with
  | quiet hne _ hi hsame =>
      have hclean : CleanRelease s a := by
        cases a with
        | release w => exact absurd rfl (hne w)
        | _ => trivial
      refine ⟨fun _ => hclean, fun _ w job hj => ?_⟩
      rw [hi]
      exact hcov w job (hsame w ▸ hj)
  | pop w rng q job ha _ _ _ hact hclaim hsame =>
      subst ha
      refine ⟨fun _ => trivial, fun _ w' j hj => ?_⟩
      rw [hact]
      by_cases hw : w' = w
      · rw [hw, hclaim] at hj
        rcases List.mem_append.mp hj with hj | hj
        · exact Finset.mem_insert_of_mem (hcov w j hj)
        · rw [List.mem_singleton.mp hj]
          exact Finset.mem_insert_self _ _
      · rw [hsame w' hw] at hj
        exact Finset.mem_insert_of_mem (hcov w' j hj)
  | release w ha _ hi hclaim hkept hsame =>
      subst ha
      have hmem : ∀ j : AdaptiveJob, j.domain ∈ t.isolation.activeDomains ↔
          j.domain ∈ s.isolation.activeDomains ∧
            ∀ job ∈ releasedJobs (s.workers w).pc, j.domain ≠ job.domain := by
        intro j
        rw [hi, DomainIsolationPool.mem_releaseDomains hs.enabled]
        simp [eq_comm]
      constructor
      · intro hcov' job hjob
        constructor
        · intro w' hne other ho
          exact ((hmem other).mp (hcov' w' other ((hsame w' hne).symm ▸ ho))).2 job hjob
        · intro other ho
          exact ((hmem other).mp (hcov' w other (hkept.symm ▸ ho))).2 job hjob
      · intro hclean w' j hj
        by_cases hw : w' = w
        · subst hw
          refine (hmem j).mpr ⟨hcov w' j ?_, fun job hjob => (hclean job hjob).2 j (hkept ▸ hj)⟩
          rw [hclaim]
          exact List.mem_append_right _ hj
        · rw [hsame w' hw] at hj
          exact (hmem j).mpr ⟨hcov w' j hj, fun job hjob => (hclean job hjob).1 w' hw j hj⟩

theorem covers_polite {s : Run k} (hs : Tracked s) (hcov : Covers s) (a : Action k) :
    Polite s a := by
  cases a with
  | pop w rng =>
      intro job q hpop hfly other ho hnq hne
      obtain ⟨w', j, hj, hdom⟩ := hfly
      have hact : job.domain ∈ s.isolation.activeDomains := hdom ▸ hcov w' j hj
      obtain ⟨key, hg⟩ := (Dict.mem_values_iff _ _).mp ho
      have hsoft := (pop_result hs.sound.valid hpop).2.soft job rfl
        (Finset.mem_union_left _ (Finset.mem_union_left _ hact)) key other hg
      rcases Finset.mem_union.mp hsoft with hsnap | hex
      · rcases Finset.mem_union.mp hsnap with hact | hq
        · exact (hs.active _ hact).resolve_left hnq
        · exact absurd hq hnq
      · exact absurd hex hne
  | _ => trivial

/-- With isolation enabled, the active domains cover all jobs in flight in every
state of a run, and every pop is polite, exactly when all its releases are
clean. -/
theorem isolated_iff_clean_releases (items : List StrategyItem) (domains : List String)
    (weights : Weights) (epsilon : ℚ) (skipDomains : Finset String) (skipKeys : Finset Key)
    (resumeCheck : Option (AdaptiveJob → Bool)) (k bridgeBatch : Nat) (quarantined : Finset String)
    (schedule : List (Action k)) (s : Run k)
    (hrun : run (step bridgeBatch) (initial k bridgeBatch true quarantined
      (buildAdaptiveQueue items domains weights epsilon skipDomains skipKeys resumeCheck)) schedule =
        some s) :
    (Along (step bridgeBatch) (fun s a => Covers s ∧ Polite s a)
        (initial k bridgeBatch true quarantined
          (buildAdaptiveQueue items domains weights epsilon skipDomains skipKeys resumeCheck))
        schedule ∧ Covers s) ↔
      Along (step bridgeBatch) CleanRelease (initial k bridgeBatch true quarantined
        (buildAdaptiveQueue items domains weights epsilon skipDomains skipKeys resumeCheck))
        schedule := by
  have hinit : Tracked (initial k bridgeBatch true quarantined
      (buildAdaptiveQueue items domains weights epsilon skipDomains skipKeys resumeCheck)) :=
    ⟨initial_sound (buildAdaptiveQueue_valid items domains weights epsilon skipDomains skipKeys
      resumeCheck) true quarantined, rfl, fun _ hd => Or.inl hd⟩
  have hcov : Covers (initial k bridgeBatch true quarantined
      (buildAdaptiveQueue items domains weights epsilon skipDomains skipKeys resumeCheck)) := by
    intro w job hj
    simp [initial, claimed, pcClaimed, pcHeld, BatchJobAccumulator.new] at hj
  have hiff := along_and_final_iff (P := Tracked) (Q := Covers)
    (C := CleanRelease) (fun _ _ _ h ht => step_tracked h ht)
    (fun _ _ _ h hc ht => covers_next h hc ht) hinit hcov hrun
  rw [← hiff]
  refine and_congr_left (fun _ => ⟨fun h => ?_, fun h => ?_⟩)
  · exact h.mono (P := fun _ => True) (fun _ _ _ _ _ _ => trivial) (fun _ _ _ h => h.1) trivial
  · exact h.mono (P := Tracked) (fun _ _ _ h _ ht => step_tracked h ht)
      (fun _ a hs hc => ⟨hc, covers_polite hs hc a⟩) hinit

def pairRun (domains : List String) : Run 1 :=
  initial 1 1 true ∅ (buildAdaptiveQueue [splitItem, fakeItem] domains {} 0 ∅ ∅ none)

/-- Both workers take a job each and probe it; the first one finishes. -/
def firstFinishes (v w : Fin 2) : List (Action 1) :=
  [.start v, .start w, .pop v .least, .move v, .move v, .move v, .pop w .least, .move w, .move w,
    .move w, .batchReturns v [{ item := splitItem, domain := "a.example" }], .account v false, .move v,
    .release v]

/-- With a single domain the first release frees it under the second worker. -/
theorem firstFinishes_uncovers : ¬ ∀ items domains weights epsilon skipDomains skipKeys resumeCheck
    (k bridgeBatch : Nat) quarantined schedule s,
    run (step bridgeBatch) (initial k bridgeBatch true quarantined
      (buildAdaptiveQueue items domains weights epsilon skipDomains skipKeys resumeCheck)) schedule =
        some s →
    Along (step bridgeBatch) (fun s a => Covers s ∧ Polite s a)
      (initial k bridgeBatch true quarantined
        (buildAdaptiveQueue items domains weights epsilon skipDomains skipKeys resumeCheck)) schedule ∧
      Covers s := by
  intro h
  have hrun : (run (step 1) (pairRun ["a.example"]) (firstFinishes 0 1)).any
      (fun s => decide (¬ Covers s)) = true := by
    decide +kernel
  obtain ⟨s, hs, hend⟩ := Option.any_eq_true _ _ |>.mp hrun
  exact of_decide_eq_true hend (h _ _ _ _ _ _ _ 1 1 _ (firstFinishes 0 1) s hs).2

theorem firstFinishes_isolated : ∃ s,
    run (step 1) (pairRun ["a.example", "discord.com"]) (firstFinishes 0 1) = some s ∧
    Along (step 1) (fun s a => Covers s ∧ Polite s a) (pairRun ["a.example", "discord.com"])
      (firstFinishes 0 1) ∧ Covers s := by
  have hrun : (run (step 1) (pairRun ["a.example", "discord.com"]) (firstFinishes 0 1)).isSome = true := by
    decide +kernel
  obtain ⟨s, hs⟩ := Option.isSome_iff_exists.mp hrun
  have hclean : Along (step 1) CleanRelease (pairRun ["a.example", "discord.com"]) (firstFinishes 0 1) := by
    decide +kernel
  exact ⟨s, hs,
    (isolated_iff_clean_releases _ _ _ _ _ _ none 1 1 ∅ (firstFinishes 0 1) s hs).mpr hclean⟩

end Blockchecks.RunnerIsolation
