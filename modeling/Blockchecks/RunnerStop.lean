import Blockchecks.RunnerClaims

namespace Blockchecks.RunnerStop

open Runs OrderedDict ScanWeights StrategyText AdaptiveQueue AdaptiveJobQueue BatchScheduler
  BridgeWorkerPool AdaptiveRunner QueueInvariant QueuePop RunnerSteps RunnerClaims Custody

variable {k bridgeBatch : Nat}

/-- No worker leaves at the stop test at the bottom of its loop with jobs in its
accumulator, and no job is popped while isolation is disabled. -/
def Flushes (s : Run k) : Action k → Prop
  | .move w => (s.workers w).pc = .bottom → s.stop = true → (s.workers w).acc.jobs = []
  | .pop _ _ => s.isolation.enabled = true ∨
      ∀ job ∈ s.queue.pending.values, job.domain ∈ s.queue.excludedDomains
  | _ => True

instance (s : Run k) : (a : Action k) → Decidable (Flushes s a)
  | .move w => inferInstanceAs (Decidable ((s.workers w).pc = .bottom → s.stop = true →
      (s.workers w).acc.jobs = []))
  | .pop _ _ => inferInstanceAs (Decidable (s.isolation.enabled = true ∨
      ∀ job ∈ s.queue.pending.values, job.domain ∈ s.queue.excludedDomains))
  | .setStop | .start _ | .batchReturns _ _ | .account _ _ | .singleReturns _ _ _ | .release _ =>
      isTrue trivial

def Traced (s : Run k) : Prop :=
  ∀ job ∈ s.handed, job.domain ∈ s.isolation.activeDomains →
    ∃ w, ∃ j ∈ claimed (s.workers w), j.domain = job.domain

theorem claims_traced {s t : Run k} {a : Action k} (h : ClaimEffect s a t) (ht : Traced s)
    (hiso : s.isolation.enabled = true ∨ t.handed = []) : Traced t := by
  intro job hj hd
  cases h with
  | quiet _ hh hi hc =>
      rw [hh] at hj
      rw [hi] at hd
      obtain ⟨w, j, hjc, he⟩ := ht job hj hd
      exact ⟨w, j, (hc w).symm ▸ hjc, he⟩
  | pop w rng q new _ _ hh _ hact hclaim hsame =>
      by_cases he : job.domain = new.domain
      · exact ⟨w, new, by simp [hclaim], he.symm⟩
      · rw [hact] at hd
        rw [hh] at hj
        have hj : job ∈ s.handed := by
          apply (List.mem_cons.mp hj).resolve_left
          rintro rfl
          exact he rfl
        obtain ⟨w', j, hjc, hdom⟩ := ht job hj (Finset.mem_of_mem_insert_of_ne hd he)
        refine ⟨w', j, ?_, hdom⟩
        by_cases hw : w' = w
        · rw [hw, hclaim]
          exact List.mem_append_left _ (hw ▸ hjc)
        · rw [hsame w' hw]
          exact hjc
  | release w _ hh hi hclaim _ hsame =>
      have hen : s.isolation.enabled = true := by
        apply hiso.resolve_right
        intro hnil
        rw [hnil] at hj
        cases hj
      rw [hi, DomainIsolationPool.mem_releaseDomains hen] at hd
      obtain ⟨w', j, hjc, hdom⟩ := ht job (hh ▸ hj) hd.1
      refine ⟨w', j, ?_, hdom⟩
      by_cases hw : w' = w
      · rw [hw, hclaim] at hjc
        rcases List.mem_append.mp hjc with hrel | hkept
        · exact absurd (List.mem_map.mpr ⟨j, hrel, hdom⟩) hd.2
        · exact hw ▸ hkept
      · rw [hsame w' hw]
        exact hjc

theorem moved_not_returned {stop : Bool} {wk wk' : Worker} (h : Moved stop wk wk') :
    wk.pc ≠ .returned := by
  cases h <;> exact fun hr => by cases hr

theorem workers_put {s u : Run k} {w w' : Fin (k + 1)} {wk : Worker} (hu : u.workers = s.workers)
    (hr : (s.workers w).pc = .returned) (hw : (s.workers w').pc ≠ .returned) :
    (u.put w' wk).workers w = s.workers w := by
  have hne : w ≠ w' := fun he => hw (he ▸ hr)
  simp only [Run.put, Function.update_of_ne hne, hu]

theorem effect_returned {s t : Run k} {a : Action k} {w : Fin (k + 1)}
    (hr : (s.workers w).pc = .returned) (h : Effect bridgeBatch s a t) :
    t.workers w = s.workers w := by
  cases h with
  | setStop => rfl
  | move hl => exact workers_put rfl hr (moved_not_returned hl)
  | accounted hpc hacc => exact workers_put hacc.workers hr (by rw [hpc]; exact fun h => by cases h)
  | singleDone hpc hacc => exact workers_put hacc.workers hr (by rw [hpc]; exact fun h => by cases h)
  | start hpc | refused hpc | popped hpc | probed hpc | released hpc | singleReleased hpc =>
      exact workers_put rfl hr (by rw [hpc]; exact fun h => by cases h)

theorem run_returned {s u : Run k} {as : List (Action k)} {w : Fin (k + 1)} (hs : Sound s)
    (hr : (s.workers w).pc = .returned) (hrun : run (step bridgeBatch) s as = some u) :
    u.workers w = s.workers w := by
  refine (run_invariant (P := fun u => Sound u ∧ u.workers w = s.workers w) ?_ ⟨hs, rfl⟩ hrun).2
  intro v a t hv ht
  have heff := step_effect hv.1.sane ht
  exact ⟨effect_sound hv.1 heff, (effect_returned (hv.2 ▸ hr) heff).trans hv.2⟩

theorem run_disabled {s u : Run k} {as : List (Action k)} {job : AdaptiveJob} (hs : Sound s)
    (hd : s.isolation.enabled = false) (hj : job ∈ s.handed)
    (ha : job.domain ∈ s.isolation.activeDomains)
    (hrun : run (step bridgeBatch) s as = some u) :
    job ∈ u.handed ∧ job.domain ∈ u.isolation.activeDomains := by
  refine (run_invariant (P := fun u => Sound u ∧ u.isolation.enabled = false ∧ job ∈ u.handed ∧
    job.domain ∈ u.isolation.activeDomains) ?_ ⟨hs, hd, hj, ha⟩ hrun).2.2
  rintro v a t ⟨hv, hdv, hjv, hav⟩ ht
  have heff := step_effect hv.sane ht
  have hc := effect_claims hv.sane heff
  refine ⟨effect_sound hv heff, hc.enabled.trans hdv, ?_⟩
  cases hc with
  | quiet _ hh hi _ => exact ⟨hh ▸ hjv, hi ▸ hav⟩
  | pop _ _ _ _ _ _ hh _ hact _ _ =>
      exact ⟨hh ▸ List.mem_cons_of_mem _ hjv, hact ▸ Finset.mem_insert_of_mem hav⟩
  | release _ _ hh hi =>
      rw [DomainIsolationPool.releaseDomains_disabled hdv] at hi
      exact ⟨hh ▸ hjv, hi ▸ hav⟩

def Settled (s : Run k) : Prop :=
  s.handed.Perm s.accounted ∧ ∀ job ∈ s.handed, job.domain ∉ s.isolation.activeDomains

theorem settled_flushes {s t u : Run k} {a : Action k} {as : List (Action k)} (hs : Sound s)
    (ht : step bridgeBatch s a = some t) (hrun : run (step bridgeBatch) t as = some u)
    (hu : Settled u) : Flushes s a := by
  have heff := step_effect hs.sane ht
  have hst := effect_sound hs heff
  cases heff with
  | @move w wk hl =>
      intro hpc hstop
      have hwk : wk = ⟨(s.workers w).acc, .returned⟩ := by
        have hstep : localStep s.stop (s.workers w) = some ⟨(s.workers w).acc, .returned⟩ := by
          simp [localStep, hpc, hstop]
        simp only [step, hstep, Option.map_some, Option.some.injEq] at ht
        have hw := congrFun (congrArg Run.workers ht) w
        simpa only [Run.put, Function.update_self] using hw.symm
      have htw : (s.put w wk).workers w = ⟨(s.workers w).acc, .returned⟩ := by
        simp only [Run.put, Function.update_self, hwk]
      have huw := (run_returned hst (w := w) (by rw [htw]) hrun).trans htw
      have hsu : Sound u := run_invariant (fun _ _ _ h hstep => step_sound h hstep) hst hrun
      have hheld := hsu.balanced.issued_eq_settled_iff.mp (Multiset.coe_eq_coe.mpr hu.1) w
      simpa [ledger, huw, held, pcHeld] using hheld
  | @refused w rng q _ _ hpop =>
      refine Or.inr (fun job hm => ?_)
      obtain ⟨key, hg⟩ := (Dict.mem_values_iff _ _).mp hm
      exact (pop_result hs.valid hpop).2.exhausted rfl key job hg
  | @popped w rng q job _ _ hpop =>
      apply Or.inl
      by_contra hen
      rw [Bool.not_eq_true] at hen
      obtain ⟨hj, hd⟩ := run_disabled hst hen (List.mem_cons_self : job ∈ job :: _)
        (Finset.mem_insert_self _ _) hrun
      exact hu.2 job hj hd
  | setStop | start | probed | accounted | singleDone | released | singleReleased => trivial

structure Tidy (s : Run k) : Prop where
  sound : Sound s
  emptied : ∀ w, Emptied (s.workers w)
  traced : Traced s
  isolated : s.isolation.enabled = true ∨ s.handed = []

theorem step_tidy {s t : Run k} {a : Action k} (hs : Tidy s) (hf : Flushes s a)
    (ht : step bridgeBatch s a = some t) : Tidy t := by
  have heff := step_effect hs.sound.sane ht
  have hc := effect_claims hs.sound.sane heff
  have hiso : s.isolation.enabled = true ∨ t.handed = [] := by
    rcases hs.isolated with hen | hnil
    · exact Or.inl hen
    cases hc with
    | quiet _ hh => exact Or.inr (hh.trans hnil)
    | release _ _ hh => exact Or.inr (hh.trans hnil)
    | pop w rng q job haction hpop =>
        subst haction
        refine hf.imp_right (fun hall => ?_)
        obtain ⟨hg, hd, _⟩ := (pop_result hs.sound.valid hpop).2.taken job rfl
        exact absurd (hall job ((Dict.mem_values_iff _ _).mpr ⟨_, hg⟩)) hd
  refine ⟨effect_sound hs.sound heff, ?_, claims_traced hc hs.traced hiso, ?_⟩
  · refine effect_emptied hs.sound.sane ?_ hs.emptied heff
    intro w haction
    subst haction
    exact hf
  · rw [hc.enabled]
    exact hiso

theorem tidy_settled {s : Run k} (hs : Tidy s) (hret : ∀ w, (s.workers w).pc = .returned) :
    Settled s := by
  have hnone : ∀ w, (s.workers w).acc.jobs = [] := fun w => hs.emptied w (hret w)
  constructor
  · refine Multiset.coe_eq_coe.mp (hs.sound.balanced.issued_eq_settled_iff.mpr fun w => ?_)
    simp [ledger, held, pcHeld, hret w, hnone w]
  · intro job hj hd
    obtain ⟨w, j, hc, _⟩ := hs.traced job hj hd
    simp [claimed, pcClaimed, pcHeld, hret w, hnone w] at hc

/-- When every worker has returned, each popped job was accounted exactly once
and its domain released, precisely when every step of the run flushes. -/
theorem settled_iff_flushes (items : List StrategyItem) (domains : List String)
    (weights : Weights) (epsilon : ℚ) (skipDomains : Finset String) (skipKeys : Finset Key)
    (resumeCheck : Option (AdaptiveJob → Bool)) (k bridgeBatch : Nat) (isolate : Bool)
    (quarantined : Finset String) (schedule : List (Action k)) (s : Run k)
    (hrun : run (step bridgeBatch) (initial k bridgeBatch isolate quarantined
      (buildAdaptiveQueue items domains weights epsilon skipDomains skipKeys resumeCheck)) schedule =
        some s)
    (hret : ∀ w, (s.workers w).pc = .returned) :
    (s.handed.Perm s.accounted ∧ ∀ job ∈ s.handed, job.domain ∉ s.isolation.activeDomains) ↔
      Along (step bridgeBatch) Flushes (initial k bridgeBatch isolate quarantined
        (buildAdaptiveQueue items domains weights epsilon skipDomains skipKeys resumeCheck))
        schedule := by
  have hsound : Sound (initial k bridgeBatch isolate quarantined
      (buildAdaptiveQueue items domains weights epsilon skipDomains skipKeys resumeCheck)) :=
    initial_sound (buildAdaptiveQueue_valid items domains weights epsilon skipDomains skipKeys
      resumeCheck) isolate quarantined
  constructor
  · intro hset
    exact along_of_run (D := fun _ _ => True) (fun _ _ _ h _ ht => step_sound h ht)
      (fun _ _ _ _ h _ ht _ hr => settled_flushes h ht hr hset) hsound (along_true _ _) hrun
  · intro hf
    have htidy : Tidy (initial k bridgeBatch isolate quarantined
        (buildAdaptiveQueue items domains weights epsilon skipDomains skipKeys resumeCheck)) :=
      ⟨hsound, (fun _ hr => by cases hr), (fun _ hj => by cases hj), Or.inr rfl⟩
    exact tidy_settled (along_invariant (fun _ _ _ h hc ht => step_tidy h hc ht) htidy hf hrun) hret

def mixedRun (bridgeBatch : Nat) : Run 0 :=
  initial 0 bridgeBatch true ∅ (buildAdaptiveQueue [splitItem, httpItem] ["a.example"] {} 0 ∅ ∅ none)

/-- The second job has another protocol, so the first is flushed. The stop comes
while that batch is probed; the second job is then pushed and left behind. -/
def stopDuringFlush (w : Fin 1) : List (Action 0) :=
  [.start w, .pop w .least, .move w, .move w, .move w, .pop w .least, .move w, .move w, .setStop,
    .batchReturns w [{ item := splitItem, domain := "a.example", success := true }], .account w false,
    .move w, .release w, .move w, .move w, .move w]

theorem stopDuringFlush_strands : ¬ ∀ items domains weights epsilon skipDomains skipKeys resumeCheck
    (k bridgeBatch : Nat) quarantined schedule s,
    run (step bridgeBatch) (initial k bridgeBatch true quarantined
      (buildAdaptiveQueue items domains weights epsilon skipDomains skipKeys resumeCheck)) schedule =
        some s → (∀ w, (s.workers w).pc = .returned) →
    s.handed.Perm s.accounted ∧ ∀ job ∈ s.handed, job.domain ∉ s.isolation.activeDomains := by
  intro h
  have hrun : (run (step 2) (mixedRun 2) (stopDuringFlush 0)).any (fun s =>
      decide ((∀ w, (s.workers w).pc = .returned) ∧ s.handed.length = 2 ∧ s.accounted.length = 1)) =
      true := by
    decide +kernel
  obtain ⟨s, hs, hend⟩ := Option.any_eq_true _ _ |>.mp hrun
  obtain ⟨hret, hhanded, haccounted⟩ := of_decide_eq_true hend
  have hl := (h _ _ _ _ _ _ _ 0 2 _ (stopDuringFlush 0) s hs hret).1.length_eq
  omega

/-- With a batch of one job the stop finds an empty accumulator. -/
def stopDuringProbe (w : Fin 1) : List (Action 0) :=
  [.start w, .pop w .least, .move w, .move w, .move w, .setStop, .batchReturns w [],
    .account w false, .move w, .release w, .move w, .move w]

theorem stopDuringProbe_settled : ∃ s, run (step 1) (mixedRun 1) (stopDuringProbe 0) = some s ∧
    s.handed.length = 1 ∧ s.handed.Perm s.accounted ∧
    ∀ job ∈ s.handed, job.domain ∉ s.isolation.activeDomains := by
  have hrun : (run (step 1) (mixedRun 1) (stopDuringProbe 0)).any (fun s =>
      decide ((∀ w, (s.workers w).pc = .returned) ∧ s.handed.length = 1)) = true := by
    decide +kernel
  obtain ⟨s, hs, hend⟩ := Option.any_eq_true _ _ |>.mp hrun
  obtain ⟨hret, hhanded⟩ := of_decide_eq_true hend
  have hf : Along (step 1) Flushes (mixedRun 1) (stopDuringProbe 0) := by decide +kernel
  exact ⟨s, hs, hhanded,
    (settled_iff_flushes _ _ _ _ _ _ none 0 1 true ∅ (stopDuringProbe 0) s hs hret).mpr hf⟩

end Blockchecks.RunnerStop
