import Blockchecks.AdaptiveRunner
import Blockchecks.Custody
import Blockchecks.QueuePop
import Blockchecks.QueueMark

namespace Blockchecks.RunnerSteps

open AdaptiveQueue AdaptiveJobQueue BatchScheduler BridgeWorkerPool AdaptiveRunner QueueInvariant QueuePop
  QueueMark Custody Results ScanWeights StrategyText

def afterJobs : After → List AdaptiveJob
  | .exit => []
  | .runSingle job => [job]
  | .pushAgain job => [job]
  | .bottom => []

def pcHeld : Pc → List AdaptiveJob
  | .popped job => [job]
  | .flush k => afterJobs k
  | .probing batch k => batch.jobs ++ afterJobs k
  | .accounting _ rest k => rest.map Prod.fst ++ afterJobs k
  | .releasing _ k => afterJobs k
  | .resume k => afterJobs k
  | .single job => [job]
  | _ => []

def pcClaimed : Pc → List AdaptiveJob
  | .accounting batch _ k => batch.jobs ++ afterJobs k
  | .releasing batch k => batch.jobs ++ afterJobs k
  | .singleReleasing job => [job]
  | pc => pcHeld pc

def held (wk : Worker) : List AdaptiveJob := wk.acc.jobs ++ pcHeld wk.pc

def claimed (wk : Worker) : List AdaptiveJob := wk.acc.jobs ++ pcClaimed wk.pc

/-- Between a flush and the next push the accumulator is empty, and only jobs of
the batch are accounted. -/
def Sane (wk : Worker) : Prop :=
  match wk.pc with
  | .probing _ _ => wk.acc.jobs = []
  | .accounting batch rest _ => wk.acc.jobs = [] ∧ rest.map Prod.fst ⊆ batch.jobs
  | .releasing _ _ => wk.acc.jobs = []
  | .resume _ => wk.acc.jobs = []
  | .single _ => wk.acc.jobs = []
  | .singleReleasing _ => wk.acc.jobs = []
  | .afterSingle => wk.acc.jobs = []
  | _ => True

/-- Everything a local step can do. -/
inductive Moved (stop : Bool) : Worker → Worker → Prop
  | stopped {acc} (hstop : stop = true) : Moved stop ⟨acc, .head⟩ ⟨acc, .flush .exit⟩
  | fanout {acc job} : Moved stop ⟨acc, .popped job⟩ ⟨acc, .flush (.runSingle job)⟩
  | push {acc acc' job} (hj : acc'.jobs = acc.jobs ++ [job]) :
      Moved stop ⟨acc, .popped job⟩ ⟨acc', .pushed⟩
  | refuse {acc job} : Moved stop ⟨acc, .popped job⟩ ⟨acc, .flush (.pushAgain job)⟩
  | flushNone {acc after} (hj : acc.jobs = []) :
      Moved stop ⟨acc, .flush after⟩ ⟨acc.flush.2, .resume after⟩
  | flush {acc after} : Moved stop ⟨acc, .flush after⟩ ⟨acc.flush.2, .probing acc.flush.1 after⟩
  | accounted {acc batch after} :
      Moved stop ⟨acc, .accounting batch [] after⟩ ⟨acc, .releasing batch after⟩
  | exit {acc} : Moved stop ⟨acc, .resume .exit⟩ ⟨acc, .returned⟩
  | runSingle {acc job} : Moved stop ⟨acc, .resume (.runSingle job)⟩ ⟨acc, .single job⟩
  | pushAgain {acc acc' job} (hj : acc'.jobs = acc.jobs ++ [job]) :
      Moved stop ⟨acc, .resume (.pushAgain job)⟩ ⟨acc', .pushed⟩
  | refuseAgain {acc job} : Moved stop ⟨acc, .resume (.pushAgain job)⟩ ⟨acc, .single job⟩
  | bottom {acc} : Moved stop ⟨acc, .resume .bottom⟩ ⟨acc, .bottom⟩
  | singleStopped {acc} (hstop : stop = true) : Moved stop ⟨acc, .afterSingle⟩ ⟨acc, .returned⟩
  | singleNext {acc} (hstop : stop = false) : Moved stop ⟨acc, .afterSingle⟩ ⟨acc, .head⟩
  | full {acc} : Moved stop ⟨acc, .pushed⟩ ⟨acc, .flush .bottom⟩
  | notFull {acc} : Moved stop ⟨acc, .pushed⟩ ⟨acc, .bottom⟩
  | bottomStopped {acc} (hstop : stop = true) : Moved stop ⟨acc, .bottom⟩ ⟨acc, .returned⟩
  | next {acc} (hstop : stop = false) : Moved stop ⟨acc, .bottom⟩ ⟨acc, .head⟩

theorem pushOr_moved {stop : Bool} {wk : Worker} {job : AdaptiveJob} {refused : Pc}
    (hpush : ∀ acc' : BatchJobAccumulator, acc'.jobs = wk.acc.jobs ++ [job] →
      Moved stop wk ⟨acc', .pushed⟩)
    (hrefuse : Moved stop wk ⟨wk.acc, refused⟩) : Moved stop wk (pushOr wk job refused) := by
  rw [pushOr]
  split
  next acc' h => exact hpush acc' (BatchJobAccumulator.push_eq_some h).1
  next => exact hrefuse

theorem localStep_moved {stop : Bool} {wk wk' : Worker} (h : localStep stop wk = some wk') :
    Moved stop wk wk' := by
  obtain ⟨acc, pc⟩ := wk
  cases pc with
  | head =>
      simp only [localStep] at h
      split at h
      next hstop => exact Option.some.inj h ▸ .stopped hstop
      next => cases h
  | popped job =>
      simp only [localStep] at h
      split at h
      · exact Option.some.inj h ▸ .fanout
      · exact Option.some.inj h ▸ pushOr_moved (fun _ => .push) .refuse
  | flush after =>
      simp only [localStep] at h
      split at h
      next hj => exact Option.some.inj h ▸ .flushNone hj
      next => exact Option.some.inj h ▸ .flush
  | accounting batch rest after =>
      cases rest with
      | nil => exact Option.some.inj h ▸ .accounted
      | cons => cases h
  | resume after =>
      cases after with
      | exit => exact Option.some.inj h ▸ .exit
      | runSingle job => exact Option.some.inj h ▸ .runSingle
      | pushAgain job => exact Option.some.inj h ▸ pushOr_moved (fun _ => .pushAgain) .refuseAgain
      | bottom => exact Option.some.inj h ▸ .bottom
  | afterSingle =>
      cases stop with
      | true => exact Option.some.inj h ▸ .singleStopped rfl
      | false => exact Option.some.inj h ▸ .singleNext rfl
  | pushed =>
      simp only [localStep] at h
      split at h
      · exact Option.some.inj h ▸ .full
      · exact Option.some.inj h ▸ .notFull
  | bottom =>
      cases stop with
      | true => exact Option.some.inj h ▸ .bottomStopped rfl
      | false => exact Option.some.inj h ▸ .next rfl
  | start | probing | releasing | single | singleReleasing | returned => cases h

theorem Moved.keeps {stop : Bool} {wk wk' : Worker} (h : Moved stop wk wk') (hs : Sane wk) :
    held wk' = held wk ∧ claimed wk' = claimed wk ∧ Sane wk' := by
  cases h with
  | push hj => simp [held, claimed, pcHeld, pcClaimed, Sane, hj]
  | pushAgain hj => simp [held, claimed, pcHeld, pcClaimed, afterJobs, Sane, hj]
  | flushNone hj =>
      simp [held, claimed, pcHeld, pcClaimed, Sane, BatchJobAccumulator.flush, hj]
  | flush => simp [held, claimed, pcHeld, pcClaimed, Sane, BatchJobAccumulator.flush]
  | accounted => exact ⟨rfl, rfl, hs.1⟩
  | runSingle | refuseAgain => exact ⟨rfl, rfl, hs⟩
  | stopped | fanout | refuse | exit | bottom | singleStopped | singleNext | full | notFull
  | bottomStopped | next => exact ⟨rfl, rfl, trivial⟩

variable {k bridgeBatch : Nat}

structure Accounted (s : Run k) (job : AdaptiveJob) (t : Run k) : Prop where
  workers : t.workers = s.workers
  isolation : t.isolation = s.isolation
  stop : t.stop = s.stop
  handed : t.handed = s.handed
  accounted : t.accounted = job :: s.accounted
  quarantined : s.quarantined ⊆ t.quarantined
  queue : ∃ passed, t.queue = (s.queue.markDone job passed).2 ∨
    t.queue = (s.queue.markDone job passed).2.excludeDomain job.domain

theorem account_spec (s : Run k) (job : AdaptiveJob) (ok newly : Bool) :
    Accounted s job (s.account job ok newly) := by
  rw [Run.account]
  dsimp only
  split
  · exact ⟨rfl, rfl, rfl, rfl, rfl, Finset.subset_insert _ _, ok, Or.inr rfl⟩
  · exact ⟨rfl, rfl, rfl, rfl, rfl, Finset.Subset.refl _, ok, Or.inl rfl⟩

theorem accountResult_spec (s : Run k) (job : AdaptiveJob) (result : TcpTestResult)
    (newly : Bool) : Accounted s job (s.accountResult job result newly) := by
  rw [Run.accountResult]
  split
  · exact ⟨rfl, rfl, rfl, rfl, rfl, Finset.Subset.refl _, false, Or.inl rfl⟩
  · exact account_spec s job result.campaignPass newly

/-- Everything one action can do. -/
inductive Effect (bridgeBatch : Nat) (s : Run k) : Action k → Run k → Prop
  | setStop : Effect bridgeBatch s .setStop { s with stop := true }
  | start {w} (hpc : (s.workers w).pc = .start) : Effect bridgeBatch s (.start w)
      ({ s with queue := s.queue.configureHeapRebuild bridgeBatch }.setPc w .head)
  | move {w wk} (h : Moved s.stop (s.workers w) wk) :
      Effect bridgeBatch s (.move w) (s.put w wk)
  | refused {w rng q} (hpc : (s.workers w).pc = .head) (hstop : s.stop = false)
      (h : s.queue.pop (s.isolation.excludedSnapshot s.quarantined) rng = some (none, q)) :
      Effect bridgeBatch s (.pop w rng) ({ s with queue := q }.setPc w (.flush .exit))
  | popped {w rng q job} (hpc : (s.workers w).pc = .head) (hstop : s.stop = false)
      (h : s.queue.pop (s.isolation.excludedSnapshot s.quarantined) rng = some (some job, q)) :
      Effect bridgeBatch s (.pop w rng) ({ s with
        queue := q
        isolation := { s.isolation with
          activeDomains := insert job.domain s.isolation.activeDomains }
        handed := job :: s.handed }.setPc w (.popped job))
  | probed {w results batch after} (hpc : (s.workers w).pc = .probing batch after)
      (h : results.length ≤ batch.jobs.length) :
      Effect bridgeBatch s (.batchReturns w results) (s.setPc w (.accounting batch
        (batch.jobs.zip (padResults (batch.jobs.map toBridgeJob) results)) after))
  | accounted {w newly batch job result rest after t}
      (hpc : (s.workers w).pc = .accounting batch ((job, result) :: rest) after)
      (h : Accounted s job t) :
      Effect bridgeBatch s (.account w newly) (t.setPc w (.accounting batch rest after))
  | singleDone {w result newly job t} (hpc : (s.workers w).pc = .single job)
      (h : Accounted s job t) :
      Effect bridgeBatch s (.singleReturns w result newly) (t.setPc w (.singleReleasing job))
  | released {w batch after} (hpc : (s.workers w).pc = .releasing batch after) :
      Effect bridgeBatch s (.release w)
        ((s.release (batch.jobs.map (·.domain))).setPc w (.resume after))
  | singleReleased {w job} (hpc : (s.workers w).pc = .singleReleasing job) :
      Effect bridgeBatch s (.release w) ((s.release [job.domain]).setPc w .afterSingle)

theorem step_effect {s t : Run k} {a : Action k} (hs : ∀ w, Sane (s.workers w))
    (h : step bridgeBatch s a = some t) : Effect bridgeBatch s a t := by
  cases a with
  | setStop =>
      obtain rfl := Option.some.inj h
      exact .setStop
  | start w =>
      simp only [step] at h
      split at h
      next hpc =>
        obtain rfl := Option.some.inj h
        exact .start hpc
      next => cases h
  | move w =>
      obtain ⟨wk, hwk, rfl⟩ := Option.map_eq_some_iff.mp h
      exact .move (localStep_moved hwk)
  | pop w rng =>
      simp only [step] at h
      split at h
      next hpc =>
        split at h
        · cases h
        next hstop =>
          obtain ⟨⟨r, q⟩, hpop, ht⟩ := Option.map_eq_some_iff.mp h
          rw [Bool.not_eq_true] at hstop
          cases r with
          | none => exact ht ▸ .refused hpc hstop hpop
          | some job => exact ht ▸ .popped hpc hstop hpop
      next => cases h
  | batchReturns w results =>
      simp only [step] at h
      split at h
      next hpc =>
        split at h
        next hle =>
          obtain rfl := Option.some.inj h
          exact .probed hpc hle
        next => cases h
      next => cases h
  | account w newly =>
      simp only [step] at h
      split at h
      next batch job result rest after hpc =>
        have hw := hs w
        simp only [Sane, hpc] at hw
        have hm : job ∈ batch.jobs := hw.2 (by simp)
        rw [Batch.jobByKey_of_mem hm] at h
        obtain rfl := Option.some.inj h
        exact .accounted hpc (accountResult_spec s job result newly)
      next => cases h
  | singleReturns w result newly =>
      simp only [step] at h
      split at h
      next job hpc =>
        obtain rfl := Option.some.inj h
        exact .singleDone hpc (account_spec s job result.campaignPass newly)
      next => cases h
  | release w =>
      simp only [step] at h
      split at h
      next hpc =>
        obtain rfl := Option.some.inj h
        exact .released hpc
      next hpc =>
        obtain rfl := Option.some.inj h
        exact .singleReleased hpc
      next => cases h

theorem effect_unstopped {s t : Run k} {a : Action k} (h : Effect bridgeBatch s a t)
    (ht : t.stop = false) : s.stop = false := by
  cases h with
  | setStop => cases ht
  | accounted _ hacc | singleDone _ hacc => exact hacc.stop.symm.trans ht
  | start | move | refused | popped | probed | released | singleReleased => exact ht

theorem effect_quarantined {s t : Run k} {a : Action k} (h : Effect bridgeBatch s a t) :
    s.quarantined ⊆ t.quarantined := by
  cases h with
  | accounted _ hacc | singleDone _ hacc => exact hacc.quarantined
  | setStop | start | move | refused | popped | probed | released | singleReleased =>
      exact Finset.Subset.refl _

def ledger (s : Run k) : Ledger (Fin (k + 1)) AdaptiveJob where
  issued := s.handed
  settled := s.accounted
  held := fun w => held (s.workers w)

structure Sound (s : Run k) : Prop where
  valid : Valid s.queue
  sane : ∀ w, Sane (s.workers w)
  balanced : (ledger s).Balanced

theorem forall_put {P : Worker → Prop} {s : Run k} (hs : ∀ w, P (s.workers w)) {w : Fin (k + 1)}
    {wk : Worker} (h : P wk) : ∀ w', P ((s.put w wk).workers w') :=
  (Function.forall_update_iff s.workers (fun _ => P)).mpr ⟨h, fun w' _ => hs w'⟩

theorem held_put (s : Run k) (w : Fin (k + 1)) (wk : Worker) :
    (fun w' => (held ((s.put w wk).workers w') : Multiset AdaptiveJob)) =
      Function.update (fun w' => (held (s.workers w') : Multiset AdaptiveJob)) w (held wk) :=
  Function.comp_update (fun wk => (held wk : Multiset AdaptiveJob)) s.workers w wk

theorem balanced_put {s : Run k} (h : (ledger s).Balanced) {w : Fin (k + 1)} {wk : Worker}
    (hw : held wk = held (s.workers w)) : (ledger (s.put w wk)).Balanced := by
  have hl : ledger (s.put w wk) = ledger s := by
    rw [ledger, held_put, hw, Function.update_eq_self]
    rfl
  rw [hl]
  exact h

theorem Accounted.valid {s t : Run k} {job : AdaptiveJob} (h : Accounted s job t)
    (hv : Valid s.queue) : Valid t.queue := by
  obtain ⟨passed, hq | hq⟩ := h.queue
  · exact hq ▸ markDone_valid hv job passed
  · exact hq ▸ (markDone_valid hv job passed).congr rfl rfl rfl rfl

theorem Accounted.balanced {s t : Run k} {job : AdaptiveJob} (h : Accounted s job t)
    (hb : (ledger s).Balanced) {w : Fin (k + 1)} {wk : Worker}
    (hw : (held (s.workers w) : Multiset AdaptiveJob) = job ::ₘ held wk) :
    (ledger (t.put w wk)).Balanced := by
  have hset := hb.settle (p := w) hw
  have hl : ledger (t.put w wk) = ⟨s.handed, job ::ₘ (s.accounted : Multiset AdaptiveJob),
      Function.update (ledger s).held w (held wk)⟩ := by
    simp only [ledger]
    rw [held_put]
    simp only [Run.put, h.handed, h.accounted, h.workers, Multiset.cons_coe]
  rw [hl]
  exact hset

theorem zip_padResults {jobs : List AdaptiveJob} {results : List TcpTestResult}
    (h : results.length ≤ jobs.length) :
    (jobs.zip (padResults (jobs.map toBridgeJob) results)).map Prod.fst = jobs := by
  apply List.map_fst_zip
  rw [padResults_length (by simpa using h), List.length_map]

theorem effect_sound {s t : Run k} {a : Action k} (hs : Sound s) (h : Effect bridgeBatch s a t) :
    Sound t := by
  cases h with
  | setStop => exact ⟨hs.valid, hs.sane, hs.balanced⟩
  | @start w hpc =>
      refine ⟨hs.valid.congr rfl rfl rfl rfl, forall_put hs.sane trivial, ?_⟩
      exact balanced_put (s := { s with queue := _ }) hs.balanced (by simp [held, hpc, pcHeld])
  | @move w wk hl =>
      obtain ⟨hh, _, hn⟩ := hl.keeps (hs.sane w)
      exact ⟨hs.valid, forall_put hs.sane hn, balanced_put hs.balanced hh⟩
  | @refused w rng q hpc _ hpop =>
      refine ⟨(pop_result hs.valid hpop).1, forall_put hs.sane trivial, ?_⟩
      exact balanced_put (s := { s with queue := _ }) hs.balanced
        (by simp [held, hpc, pcHeld, afterJobs])
  | @popped w rng q job hpc _ hpop =>
      refine ⟨(pop_result hs.valid hpop).1, forall_put hs.sane trivial, ?_⟩
      have hissue := hs.balanced.issue w job
      have hheld : (held ⟨(s.workers w).acc, .popped job⟩ : Multiset AdaptiveJob) =
          job ::ₘ held (s.workers w) := by
        simp only [held, hpc, pcHeld, List.append_nil, Multiset.cons_coe, Multiset.coe_eq_coe]
        exact List.perm_append_singleton job _
      rw [ledger] at hissue ⊢
      rw [Run.setPc, held_put, hheld]
      exact hissue
  | @probed w results batch after hpc hle =>
      have hw := hs.sane w
      simp only [Sane, hpc] at hw
      have hz := zip_padResults hle
      refine ⟨hs.valid, forall_put hs.sane ⟨hw, by rw [hz]; exact List.Subset.refl _⟩, ?_⟩
      exact balanced_put hs.balanced (by simp only [held, hpc, pcHeld, hz])
  | @accounted w newly batch job result rest after t hpc hacc =>
      have hw := hs.sane w
      simp only [Sane, hpc] at hw
      refine ⟨hacc.valid hs.valid, forall_put (hacc.workers ▸ hs.sane) ?_, ?_⟩
      · rw [hacc.workers]
        exact ⟨hw.1, fun j hj => hw.2 (List.mem_cons_of_mem _ hj)⟩
      · apply hacc.balanced hs.balanced
        simp only [held, hpc, hacc.workers, pcHeld, hw.1, List.map_cons, List.nil_append,
          List.cons_append, Multiset.cons_coe]
  | @singleDone w result newly job t hpc hacc =>
      have hw := hs.sane w
      simp only [Sane, hpc] at hw
      refine ⟨hacc.valid hs.valid, forall_put (hacc.workers ▸ hs.sane) ?_, ?_⟩
      · rw [hacc.workers]
        exact hw
      · apply hacc.balanced hs.balanced
        simp only [held, hpc, hacc.workers, pcHeld, hw, List.nil_append, Multiset.cons_coe]
  | @released w batch after hpc =>
      have hw := hs.sane w
      simp only [Sane, hpc] at hw
      refine ⟨hs.valid, forall_put hs.sane hw, ?_⟩
      exact balanced_put (s := s.release _) hs.balanced (by simp [held, hpc, pcHeld, Run.release])
  | @singleReleased w job hpc =>
      have hw := hs.sane w
      simp only [Sane, hpc] at hw
      refine ⟨hs.valid, forall_put hs.sane hw, ?_⟩
      exact balanced_put (s := s.release _) hs.balanced (by simp [held, hpc, pcHeld, Run.release])

def Emptied (wk : Worker) : Prop := wk.pc = .returned → wk.acc.jobs = []

theorem Moved.emptied {stop : Bool} {wk wk' : Worker} (hs : Sane wk)
    (hb : wk.pc = .bottom → stop = true → wk.acc.jobs = []) (h : Moved stop wk wk') :
    Emptied wk' := by
  intro hr
  cases h with
  | exit | singleStopped => exact hs
  | bottomStopped hstop => exact hb rfl hstop
  | _ => cases hr

/-- Only the stop test at the bottom of the loop can strand jobs. -/
theorem effect_emptied {s t : Run k} {a : Action k} (hs : ∀ w, Sane (s.workers w))
    (hb : ∀ w, a = .move w → (s.workers w).pc = .bottom → s.stop = true →
      (s.workers w).acc.jobs = [])
    (he : ∀ w, Emptied (s.workers w)) (h : Effect bridgeBatch s a t) :
    ∀ w, Emptied (t.workers w) := by
  cases h with
  | setStop => exact he
  | @move w wk hl => exact forall_put he (hl.emptied (hs w) (hb w rfl))
  | accounted _ hacc => exact forall_put (hacc.workers ▸ he) (fun hr => by cases hr)
  | singleDone _ hacc => exact forall_put (hacc.workers ▸ he) (fun hr => by cases hr)
  | start | refused | popped | probed | released | singleReleased =>
      exact forall_put he (fun hr => by cases hr)

theorem step_sound {s t : Run k} {a : Action k} (hs : Sound s)
    (h : step bridgeBatch s a = some t) : Sound t :=
  effect_sound hs (step_effect hs.sane h)

theorem initial_sound {queue : AdaptiveJobQueue} (hv : Valid queue) (isolate : Bool)
    (quarantined : Finset String) :
    Sound (initial k bridgeBatch isolate quarantined queue) := by
  refine ⟨hv, fun _ => trivial, ?_⟩
  simp [Ledger.Balanced, ledger, initial, held, pcHeld, BatchJobAccumulator.new]

theorem buildAdaptiveQueue_valid (items : List StrategyItem) (domains : List String)
    (weights : Weights) (epsilon : ℚ) (skipDomains : Finset String) (skipKeys : Finset Key)
    (resumeCheck : Option (AdaptiveJob → Bool)) :
    Valid (buildAdaptiveQueue items domains weights epsilon skipDomains skipKeys resumeCheck) := by
  have hb := build_valid items domains weights epsilon skipDomains skipKeys
  cases resumeCheck with
  | none => exact hb
  | some check => exact filterResume_valid hb check

end Blockchecks.RunnerSteps
