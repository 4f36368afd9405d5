import Blockchecks.RunnerSteps

namespace Blockchecks.RunnerComplete

open Runs OrderedDict ScanWeights StrategyText AdaptiveQueue AdaptiveJobQueue BatchScheduler AdaptiveRunner
  QueueInvariant QueuePop QueueMark RunnerSteps

variable {k bridgeBatch : Nat}

def Finishing : Pc → Prop
  | .flush .exit => True
  | .probing _ .exit => True
  | .accounting _ _ .exit => True
  | .releasing _ .exit => True
  | .resume .exit => True
  | .returned => True
  | _ => False

/-- A key is excluded, accounted, owed by a worker, or pending while some worker
still pops. -/
def Covered (s : Run k) (key : Key) : Prop :=
  key.2 ∈ s.queue.excludedDomains ∨ (∃ job ∈ s.accounted, job.key = key) ∨
    (∃ w, ∃ job ∈ held (s.workers w), job.key = key) ∨
    (key ∈ s.queue.pending.keys ∧ ∃ w, ¬ Finishing (s.workers w).pc)

theorem Covered.next {s t : Run k} {key : Key} (h : Covered s key)
    (hex : s.queue.excludedDomains ⊆ t.queue.excludedDomains)
    (hacc : s.accounted ⊆ t.accounted)
    (hheld : ∀ w, ∀ job ∈ held (s.workers w), job.key = key → Covered t key)
    (hpend : key ∈ s.queue.pending.keys → (∃ w, ¬ Finishing (s.workers w).pc) → Covered t key) :
    Covered t key := by
  rcases h with h | ⟨job, hj, hk⟩ | ⟨w, job, hj, hk⟩ | ⟨hp, hw⟩
  · exact Or.inl (hex h)
  · exact Or.inr (Or.inl ⟨job, hacc hj, hk⟩)
  · exact hheld w job hj hk
  · exact hpend hp hw

theorem covered_of_held {s : Run k} {key : Key} (w : Fin (k + 1)) (job : AdaptiveJob)
    (hj : job ∈ held (s.workers w)) (hk : job.key = key) : Covered s key :=
  Or.inr (Or.inr (Or.inl ⟨w, job, hj, hk⟩))

theorem mem_held_put {s : Run k} {w w' : Fin (k + 1)} {wk : Worker} {job : AdaptiveJob}
    (hw : held (s.workers w) ⊆ held wk) (hj : job ∈ held (s.workers w')) :
    job ∈ held ((s.put w wk).workers w') := by
  by_cases he : w' = w
  · subst he
    simpa only [Run.put, Function.update_self] using hw hj
  · simpa only [Run.put, Function.update_of_ne he] using hj

theorem popping_put {s : Run k} {w : Fin (k + 1)} {wk : Worker}
    (hw : Finishing wk.pc → Finishing (s.workers w).pc)
    (h : ∃ w', ¬ Finishing (s.workers w').pc) : ∃ w', ¬ Finishing ((s.put w wk).workers w').pc := by
  obtain ⟨w', hw'⟩ := h
  refine ⟨w', ?_⟩
  by_cases he : w' = w
  · subst he
    simpa only [Run.put, Function.update_self] using fun hf => hw' (hw hf)
  · simpa only [Run.put, Function.update_of_ne he] using hw'

/-- While nobody stops the run, a worker finishes only through a refused pop. -/
theorem moved_finishing {wk wk' : Worker} (h : Moved false wk wk') :
    Finishing wk'.pc → Finishing wk.pc := by
  cases h with
  | stopped hstop | singleStopped hstop | bottomStopped hstop => cases hstop
  | @flushNone _ after | @flush _ after | @accounted _ _ after => cases after <;> exact id
  | fanout | push | refuse | exit | runSingle | pushAgain | refuseAgain | bottom | singleNext | full
  | notFull | next => exact id

theorem Covered.put {s u : Run k} {key : Key} {w : Fin (k + 1)} {wk : Worker} (hc : Covered s key)
    (hex : s.queue.excludedDomains ⊆ u.queue.excludedDomains) (hacc : s.accounted ⊆ u.accounted)
    (hwork : u.workers = s.workers) (hheld : held (s.workers w) ⊆ held wk)
    (hfin : Finishing wk.pc → Finishing (s.workers w).pc)
    (hpend : key ∈ s.queue.pending.keys → key ∈ u.queue.pending.keys) :
    Covered (u.put w wk) key := by
  refine hc.next hex hacc ?_ ?_
  · intro w' job hj hk
    exact covered_of_held _ _ (mem_held_put (hwork.symm ▸ hheld) (hwork.symm ▸ hj)) hk
  · intro hp hw
    exact Or.inr (Or.inr (Or.inr ⟨hpend hp, popping_put (hwork.symm ▸ hfin) (hwork.symm ▸ hw)⟩))

theorem Covered.account {s t : Run k} {key : Key} {w : Fin (k + 1)} {wk : Worker} {job : AdaptiveJob}
    (hc : Covered s key) (hacc : Accounted s job t) (hheld : held (s.workers w) ⊆ job :: held wk)
    (hfin : Finishing wk.pc → Finishing (s.workers w).pc) : Covered (t.put w wk) key := by
  by_cases hkey : job.key = key
  · exact Or.inr (Or.inl ⟨job, by simp [Run.put, hacc.accounted], hkey⟩)
  obtain ⟨passed, hq⟩ := hacc.queue
  have hspec := markDone_spec s.queue job passed
  have hex : s.queue.excludedDomains ⊆ t.queue.excludedDomains := by
    rcases hq with hq | hq
    · rw [hq, hspec.excluded]
    · rw [hq, ← hspec.excluded]
      exact Finset.subset_insert _ _
  have hpend : key ∈ s.queue.pending.keys → key ∈ t.queue.pending.keys := by
    intro hp
    obtain ⟨j, hg⟩ := (Dict.mem_keys_iff _ _).mp hp
    have hk := hspec.kept key j hg (Ne.symm hkey)
    rcases hq with hq | hq <;> rw [hq] <;> exact (Dict.mem_keys_iff _ _).mpr ⟨j, hk⟩
  have hsub : s.accounted ⊆ t.accounted := by
    rw [hacc.accounted]
    exact List.subset_cons_self _ _
  refine hc.next hex hsub ?_ ?_
  · intro w' j hj hk
    refine covered_of_held w' j ?_ hk
    by_cases he : w' = w
    · subst he
      rcases List.mem_cons.mp (hheld hj) with rfl | hj
      · exact absurd hk hkey
      · simpa only [Run.put, Function.update_self] using hj
    · simpa only [Run.put, Function.update_of_ne he, hacc.workers] using hj
  · intro hp hw
    exact Or.inr (Or.inr (Or.inr ⟨hpend hp,
      popping_put (hacc.workers.symm ▸ hfin) (hacc.workers.symm ▸ hw)⟩))

theorem excluded_of_refused {q q' : AdaptiveJobQueue} {exclude : Finset String} {key : Key}
    (hv : Valid q) (h : PopSpec q exclude none q') (hp : key ∈ q.pending.keys) :
    key.2 ∈ q'.excludedDomains := by
  obtain ⟨job, hg⟩ := (Dict.mem_keys_iff _ _).mp hp
  have hd : job.key.2 ∈ q.excludedDomains := h.exhausted rfl key job hg
  rw [h.excluded, ← hv.keyed key job hg]
  exact hd

/-- A pending key that a pop takes away is hard-excluded or the one handed out. -/
theorem pending_of_popped {q q' : AdaptiveJobQueue} {exclude : Finset String} {job : AdaptiveJob}
    {key : Key} (hv : Valid q) (h : PopSpec q exclude (some job) q') (hp : key ∈ q.pending.keys) :
    key ∈ q'.pending.keys ∨ key.2 ∈ q'.excludedDomains ∨ job.key = key := by
  obtain ⟨j, hg⟩ := (Dict.mem_keys_iff _ _).mp hp
  have hkey : j.key = key := hv.keyed key j hg
  rcases h.kept key j hg with hk | ⟨hd, _⟩ | hr
  · exact Or.inl ((Dict.mem_keys_iff _ _).mpr ⟨j, hk⟩)
  · rw [h.excluded, ← hkey]
    exact Or.inr (Or.inl hd)
  · obtain rfl := Option.some.inj hr
    exact Or.inr (Or.inr hkey)

theorem effect_covered {s t : Run k} {a : Action k} {key : Key} (hs : Sound s)
    (hstop : t.stop = false) (hc : Covered s key) (h : Effect bridgeBatch s a t) :
    Covered t key := by
  cases h with
  | setStop => cases hstop
  | @start w hpc =>
      refine hc.put (u := { s with queue := _ }) (Finset.Subset.refl _) (List.Subset.refl _) rfl ?_
        False.elim id
      simp [held, hpc, pcHeld]
  | @move w wk hl =>
      have hstop : s.stop = false := hstop
      rw [hstop] at hl
      refine hc.put (Finset.Subset.refl _) (List.Subset.refl _) rfl ?_ (moved_finishing hl) id
      rw [(hl.keeps (hs.sane w)).1]
      exact List.Subset.refl _
  | @refused w rng q hpc _ hpop =>
      -- this worker finishes, but then every pending job is excluded
      obtain ⟨_, hspec⟩ := pop_result hs.valid hpop
      refine hc.next (by rw [← hspec.excluded]; exact Finset.Subset.refl _) (List.Subset.refl _) ?_ ?_
      · intro w' job hj hk
        refine covered_of_held _ _ (mem_held_put (s := { s with queue := _ }) ?_ hj) hk
        simp [held, hpc, pcHeld, afterJobs]
      · intro hp _
        exact Or.inl (excluded_of_refused hs.valid hspec hp)
  | @popped w rng q job hpc _ hpop =>
      obtain ⟨_, hspec⟩ := pop_result hs.valid hpop
      refine hc.next (by rw [← hspec.excluded]; exact Finset.Subset.refl _) (List.Subset.refl _) ?_ ?_
      · intro w' j hj hk
        refine covered_of_held _ _ (mem_held_put (s := { s with queue := _, isolation := _, handed := _ })
          ?_ hj) hk
        simp [held, hpc, pcHeld]
      · intro hp hw
        rcases pending_of_popped hs.valid hspec hp with hk | hd | hk
        · refine Or.inr (Or.inr (Or.inr ⟨hk, ?_⟩))
          exact popping_put (s := { s with queue := _, isolation := _, handed := _ }) False.elim hw
        · exact Or.inl hd
        · refine covered_of_held w job ?_ hk
          simp [Run.setPc, Run.put, held, pcHeld]
  | @probed w results batch after hpc hle =>
      refine hc.put (Finset.Subset.refl _) (List.Subset.refl _) rfl ?_ ?_ id
      · simp only [held, hpc, pcHeld, zip_padResults hle]
        exact List.Subset.refl _
      · rw [hpc]
        cases after <;> exact id
  | @accounted w newly batch job result rest after t hpc hacc =>
      apply hc.account hacc
      · simp only [held, hpc, pcHeld, hacc.workers, List.map_cons, List.cons_append]
        exact (List.perm_middle).subset
      · rw [hpc]
        cases after <;> exact id
  | @singleDone w result newly job t hpc hacc =>
      refine hc.account hacc ?_ False.elim
      simp only [held, hpc, pcHeld, hacc.workers]
      exact (List.perm_middle).subset
  | @released w batch after hpc =>
      refine hc.put (u := s.release _) (Finset.Subset.refl _) (List.Subset.refl _) rfl ?_ ?_ id
      · simp [held, hpc, pcHeld, Run.release]
      · rw [hpc]
        cases after <;> exact id
  | @singleReleased w job hpc =>
      refine hc.put (u := s.release _) (Finset.Subset.refl _) (List.Subset.refl _) rfl ?_ False.elim id
      simp [held, hpc, pcHeld, Run.release]

/-- Until it is stopped, a run has lost nothing of a key. -/
def Complete (key : Key) (s : Run k) : Prop :=
  Sound s ∧ (s.stop = false → Covered s key ∧ ∀ w, Emptied (s.workers w))

theorem step_complete {s t : Run k} {a : Action k} {key : Key} (h : Complete key s)
    (hstep : step bridgeBatch s a = some t) : Complete key t := by
  have heff := step_effect h.1.sane hstep
  refine ⟨effect_sound h.1 heff, ?_⟩
  intro hstop
  have hgoing : s.stop = false := effect_unstopped heff hstop
  obtain ⟨hc, he⟩ := h.2 hgoing
  refine ⟨effect_covered h.1 hstop hc heff, effect_emptied h.1.sane ?_ he heff⟩
  intro _ _ _ hs
  rw [hgoing] at hs
  cases hs

theorem initial_complete {queue : AdaptiveJobQueue} (hv : Valid queue) {isolate : Bool}
    {quarantined : Finset String} {key : Key}
    (hc : Covered (initial k bridgeBatch isolate quarantined queue) key) :
    Complete key (initial k bridgeBatch isolate quarantined queue) := by
  refine ⟨initial_sound hv isolate quarantined, fun _ => ⟨hc, ?_⟩⟩
  intro w hr
  cases hr

theorem mem_keys_enqueue (q : AdaptiveJobQueue) (job : AdaptiveJob) (key : Key) :
    key ∈ (q.enqueue job).2.pending.keys ↔
      key ∈ q.pending.keys ∨ key = job.key ∧ job.key ∉ q.done := by
  rw [Dict.mem_keys_iff, get?_enqueue]
  split
  next h => simp [h.1, h.2.2]
  next h =>
    rw [← Dict.mem_keys_iff]
    constructor
    · exact Or.inl
    · rintro (hk | ⟨rfl, hd⟩)
      · exact hk
      · by_contra hn
        exact h ⟨rfl, hn, hd⟩

theorem enqueueMany_frame (q : AdaptiveJobQueue) (jobs : List AdaptiveJob) :
    (q.enqueueMany jobs).done = q.done ∧
      (q.enqueueMany jobs).excludedDomains = q.excludedDomains := by
  rw [enqueueMany]
  induction jobs generalizing q with
  | nil => exact ⟨rfl, rfl⟩
  | cons job jobs ih =>
      obtain ⟨hex, _, hdone, _⟩ := enqueue_frame q job
      exact ⟨(ih _).1.trans hdone, (ih _).2.trans hex⟩

theorem mem_keys_enqueueMany {q : AdaptiveJobQueue} {jobs : List AdaptiveJob} {key : Key}
    (h : key ∈ q.pending.keys ∨ key ∉ q.done ∧ ∃ job ∈ jobs, job.key = key) :
    key ∈ (q.enqueueMany jobs).pending.keys := by
  rw [enqueueMany]
  induction jobs generalizing q with
  | nil => exact h.resolve_right (by simp)
  | cons job jobs ih =>
      apply ih
      rw [mem_keys_enqueue, (enqueue_frame q job).2.2.1]
      rcases h with hk | ⟨hd, j, hj, rfl⟩
      · exact Or.inl (Or.inl hk)
      · rcases List.mem_cons.mp hj with rfl | hj
        · exact Or.inl (Or.inr ⟨rfl, hd⟩)
        · exact Or.inr ⟨hd, j, hj, rfl⟩

theorem build_excluded (items : List StrategyItem) (domains : List String) (weights : Weights)
    (epsilon : ℚ) (skipDomains : Finset String) (skipKeys : Finset Key) :
    (build items domains weights epsilon skipDomains skipKeys).excludedDomains = skipDomains := by
  rw [build]
  exact (enqueueMany_frame _ _).2

theorem build_pending (items : List StrategyItem) (domains : List String) (weights : Weights)
    (epsilon : ℚ) (skipDomains : Finset String) (skipKeys : Finset Key)
    {p : StrategyItem × String} (hp : p ∈ matrix items domains) (hd : p.2 ∉ skipDomains)
    (hk : pairKey p ∉ skipKeys) :
    pairKey p ∈ (build items domains weights epsilon skipDomains skipKeys).pending.keys := by
  rw [build]
  refine mem_keys_enqueueMany (Or.inr ⟨?_, .fromItem p.1 p.2, ?_, rfl⟩)
  · simp [hk]
  · refine List.mem_map.mpr ⟨p, List.mem_filter.mpr ⟨hp, ?_⟩, rfl⟩
    simp [hd, hk]

theorem resume_fold_kept (key : Key) (flags : List (Key × Bool))
    (hf : ∀ flag ∈ flags, flag.1 = key → flag.2 = false) (acc : Nat × AdaptiveJobQueue) :
    (flags.foldl resumeKey acc).2.excludedDomains = acc.2.excludedDomains ∧
      (flags.foldl resumeKey acc).2.pending.get? key = acc.2.pending.get? key := by
  induction flags generalizing acc with
  | nil => exact ⟨rfl, rfl⟩
  | cons flag flags ih =>
      obtain ⟨hex, hget⟩ := ih (fun f hm => hf f (List.mem_cons_of_mem _ hm)) (resumeKey acc flag)
      have hone : (resumeKey acc flag).2.excludedDomains = acc.2.excludedDomains ∧
          (resumeKey acc flag).2.pending.get? key = acc.2.pending.get? key := by
        rw [resumeKey]
        split
        next h =>
          refine ⟨(dropPending_frame _ _).2.2.1, ?_⟩
          rw [get?_dropPending, if_neg]
          · rfl
          · rintro rfl
            have hfalse := hf flag List.mem_cons_self rfl
            rw [h.1] at hfalse
            cases hfalse
        next => exact ⟨rfl, rfl⟩
      exact ⟨hex.trans hone.1, hget.trans hone.2⟩

theorem filterResume_kept (q : AdaptiveJobQueue) (check : AdaptiveJob → Bool) (key : Key)
    (hcheck : ∀ job, q.pending.get? key = some job → check job = false) :
    (q.filterResume check).2.excludedDomains = q.excludedDomains ∧
      (q.filterResume check).2.pending.get? key = q.pending.get? key := by
  have hfold := resume_fold_kept key (q.pending.entries.map (fun e => (e.1, check e.2)))
    (by
      intro flag hm hk
      obtain ⟨e, he, rfl⟩ := List.mem_map.mp hm
      exact hcheck e.2 ((Dict.get?_eq_some_iff _ _ _).mpr (hk ▸ he))) (0, q)
  rw [filterResume]
  dsimp only
  split
  · exact hfold
  · have hs := maybeCompactHeap_same
      ((q.pending.entries.map (fun e => (e.1, check e.2))).foldl resumeKey (0, q)).2
    exact ⟨hs.excluded.trans hfold.1, by rw [hs.pending]; exact hfold.2⟩

def ResumeSkips (queue : AdaptiveJobQueue) (resumeCheck : Option (AdaptiveJob → Bool))
    (key : Key) : Prop :=
  ∃ check ∈ resumeCheck, ∃ job, queue.pending.get? key = some job ∧ check job = true

theorem buildAdaptiveQueue_covers (items : List StrategyItem) (domains : List String)
    (weights : Weights) (epsilon : ℚ) (skipDomains : Finset String) (skipKeys : Finset Key)
    (resumeCheck : Option (AdaptiveJob → Bool)) {p : StrategyItem × String}
    (hp : p ∈ matrix items domains) (hk : pairKey p ∉ skipKeys)
    (hr : ¬ ResumeSkips (build items domains weights epsilon skipDomains skipKeys) resumeCheck
      (pairKey p)) (isolate : Bool) (quarantined : Finset String) :
    Covered (initial k bridgeBatch isolate quarantined
      (buildAdaptiveQueue items domains weights epsilon skipDomains skipKeys resumeCheck))
      (pairKey p) := by
  have hframe : (buildAdaptiveQueue items domains weights epsilon skipDomains skipKeys
        resumeCheck).excludedDomains = skipDomains ∧
      (buildAdaptiveQueue items domains weights epsilon skipDomains skipKeys
        resumeCheck).pending.get? (pairKey p) =
      (build items domains weights epsilon skipDomains skipKeys).pending.get? (pairKey p) := by
    cases resumeCheck with
    | none => exact ⟨build_excluded items domains weights epsilon skipDomains skipKeys, rfl⟩
    | some check =>
        have hkept := filterResume_kept
          (build items domains weights epsilon skipDomains skipKeys) check (pairKey p) (by
            intro job hg
            by_contra hc
            exact hr ⟨check, rfl, job, hg, by simpa using hc⟩)
        exact ⟨hkept.1.trans (build_excluded items domains weights epsilon skipDomains skipKeys),
          hkept.2⟩
  by_cases hd : p.2 ∈ skipDomains
  · exact Or.inl (hframe.1.symm ▸ hd)
  · refine Or.inr (Or.inr (Or.inr ⟨?_, 0, id⟩))
    have hpend := build_pending items domains weights epsilon skipDomains skipKeys hp hd hk
    rw [Dict.mem_keys_iff] at hpend ⊢
    exact hframe.2.symm ▸ hpend

/-- When every worker of an unstopped run has returned, each pair of the matrix
that was not resume-skipped is marked done or its domain is excluded. -/
theorem adaptive_run_complete (items : List StrategyItem) (domains : List String)
    (weights : Weights) (epsilon : ℚ) (skipDomains : Finset String) (skipKeys : Finset Key)
    (resumeCheck : Option (AdaptiveJob → Bool)) (k bridgeBatch : Nat) (isolate : Bool)
    (quarantined : Finset String) (schedule : List (Action k)) (s : Run k)
    (hrun : run (step bridgeBatch) (initial k bridgeBatch isolate quarantined
      (buildAdaptiveQueue items domains weights epsilon skipDomains skipKeys resumeCheck)) schedule =
        some s)
    (hstop : s.stop = false) (hret : ∀ w, (s.workers w).pc = .returned)
    (p : StrategyItem × String) (hp : p ∈ matrix items domains) (hk : pairKey p ∉ skipKeys)
    (hr : ¬ ResumeSkips (build items domains weights epsilon skipDomains skipKeys) resumeCheck
      (pairKey p)) :
    (∃ job ∈ s.accounted, job.key = pairKey p) ∨ p.2 ∈ s.queue.excludedDomains := by
  have hinv : Complete (pairKey p) s := by
    refine run_invariant (fun u a t hu hstep => step_complete hu hstep) ?_ hrun
    refine initial_complete (buildAdaptiveQueue_valid items domains weights epsilon skipDomains
      skipKeys resumeCheck) ?_
    exact buildAdaptiveQueue_covers items domains weights epsilon skipDomains skipKeys resumeCheck
      hp hk hr isolate quarantined
  obtain ⟨hc, he⟩ := hinv.2 hstop
  rcases hc with hd | hacc | ⟨w, job, hj, _⟩ | ⟨_, w, hw⟩
  · exact Or.inr hd
  · exact Or.inl hacc
  · simp [held, pcHeld, hret w, he w (hret w)] at hj
  · rw [hret w] at hw
    exact absurd trivial hw

/-- Two workers, a batch each; the first one passes and finds nothing to fan out to. -/
def twoBatches (v w : Fin 2) : List (Action 1) :=
  [.start v, .start w, .pop v .least, .move v, .move v, .move v, .pop w .least, .move w, .move w,
    .move w, .batchReturns v [{ item := splitItem, domain := "a.example", success := true }],
    .account v false, .move v, .release v, .move v, .move v, .pop v .least, .move v, .move v,
    .batchReturns w [], .account w false, .move w, .release w, .move w, .move w, .pop w .least,
    .move w, .move w]

def splitRun : Run 1 :=
  initial 1 1 true ∅ (buildAdaptiveQueue [splitItem] ["a.example", "discord.com"] {} 0 ∅ ∅ none)

theorem twoBatches_complete : ∃ s : Run 1, run (step 1) splitRun (twoBatches 0 1) = some s ∧
    s.stop = false ∧ (∀ w, (s.workers w).pc = .returned) ∧
    ∀ p ∈ matrix [splitItem] ["a.example", "discord.com"],
      (∃ job ∈ s.accounted, job.key = pairKey p) ∨ p.2 ∈ s.queue.excludedDomains := by
  have hrun : (run (step 1) splitRun (twoBatches 0 1)).any
      (fun s => decide (s.stop = false ∧ ∀ w, (s.workers w).pc = .returned)) = true := by
    decide +kernel
  obtain ⟨s, hs, hend⟩ := Option.any_eq_true _ _ |>.mp hrun
  obtain ⟨hstop, hret⟩ := of_decide_eq_true hend
  refine ⟨s, hs, hstop, hret, fun p hp => ?_⟩
  exact adaptive_run_complete _ _ _ _ _ _ none 1 1 true ∅ (twoBatches 0 1) s hs hstop hret p hp
    (by simp) (by simp [ResumeSkips])

end Blockchecks.RunnerComplete
