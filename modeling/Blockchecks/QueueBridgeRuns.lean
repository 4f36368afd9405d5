import Blockchecks.QueueBridgeSteps
import Blockchecks.Custody
import Mathlib.Data.Fintype.BigOperators

namespace Blockchecks.QueueBridgeRuns

open Runs BridgeWorkerPool QueueBridge QueueBridgeSteps Custody StrategyText Results

variable {k batchSize : Nat}

def holding (s : Pool k) : Option (Fin (k + 1)) → Multiset Job
  | none => s.queue
  | some w => held (s.workers w)

def ledger (jobs : List Job) (s : Pool k) : Ledger (Option (Fin (k + 1))) Job where
  issued := jobs
  settled := s.calls.map Prod.fst
  held := holding s

def claimedDomains (s : Pool k) : Multiset String :=
  ∑ w, ((claimed (s.workers w)).map Prod.snd : Multiset String)

structure Sound (jobs : List Job) (s : Pool k) : Prop where
  sane : ∀ w, Sane (s.workers w)
  balanced : (ledger jobs s).Balanced
  live : s.stop = false → s.queue ≠ [] → ∃ w, ¬ Leaving (s.workers w).pc

structure Exclusive (s : Pool k) : Prop where
  enabled : s.isolation.enabled = true
  nodup : (claimedDomains s).Nodup
  active : ∀ d ∈ claimedDomains s, d ∈ s.isolation.activeDomains

theorem holding_put (s : Pool k) (w : Fin (k + 1)) (wk : Worker) :
    holding (s.put w wk) = Function.update (holding s) (some w) (held wk) := by
  funext p
  cases p with
  | none => rfl
  | some w' =>
      by_cases he : w' = w
      · subst he
        simp [holding, Pool.put]
      · rw [Function.update_of_ne (by simpa using he)]
        simp [holding, Pool.put, Function.update_of_ne he]

theorem holding_queue (s : Pool k) (queue : List Job) :
    holding { s with queue := queue } = Function.update (holding s) none (queue : Multiset Job) := by
  funext p
  cases p with
  | none => rfl
  | some w => rw [Function.update_of_ne (by simp)]; rfl

theorem claimedDomains_put (s : Pool k) (w : Fin (k + 1)) (wk : Worker) :
    claimedDomains (s.put w wk) + (claimed (s.workers w)).map Prod.snd =
      claimedDomains s + (claimed wk).map Prod.snd := by
  have hu : (fun w' => ((claimed ((s.put w wk).workers w')).map Prod.snd : Multiset String)) =
      Function.update (fun w' => ((claimed (s.workers w')).map Prod.snd : Multiset String)) w
        ((claimed wk).map Prod.snd) :=
    Function.comp_update (fun wk => ((claimed wk).map Prod.snd : Multiset String)) s.workers w wk
  rw [claimedDomains, hu]
  exact sum_update _ w _

theorem claimedDomains_same {s : Pool k} {w : Fin (k + 1)} {wk : Worker}
    (h : claimed wk = claimed (s.workers w)) : claimedDomains (s.put w wk) = claimedDomains s := by
  have hput := claimedDomains_put s w wk
  rw [h] at hput
  exact add_right_cancel hput

theorem forall_put {P : Worker → Prop} {s : Pool k} (hs : ∀ w, P (s.workers w)) {w : Fin (k + 1)}
    {wk : Worker} (h : P wk) : ∀ w', P ((s.put w wk).workers w') :=
  (Function.forall_update_iff s.workers (fun _ => P)).mpr ⟨h, fun w' _ => hs w'⟩

theorem live_put {s : Pool k} {w : Fin (k + 1)} {wk : Worker}
    (hw : Leaving wk.pc → Leaving (s.workers w).pc) (h : ∃ w', ¬ Leaving (s.workers w').pc) :
    ∃ w', ¬ Leaving ((s.put w wk).workers w').pc := by
  obtain ⟨w', hw'⟩ := h
  refine ⟨w', ?_⟩
  by_cases he : w' = w
  · subst he
    simpa only [Pool.put, Function.update_self] using fun hl => hw' (hw hl)
  · simpa only [Pool.put, Function.update_of_ne he] using hw'

theorem live_self {s : Pool k} {w : Fin (k + 1)} {wk : Worker} (h : ¬ Leaving wk.pc) :
    ∃ w', ¬ Leaving ((s.put w wk).workers w').pc :=
  ⟨w, by simpa only [Pool.put, Function.update_self] using h⟩

theorem balanced_put {jobs : List Job} {s : Pool k} (h : (ledger jobs s).Balanced)
    {w : Fin (k + 1)} {wk : Worker} (hw : held wk = held (s.workers w)) :
    (ledger jobs (s.put w wk)).Balanced := by
  have hl : holding (s.put w wk) = holding s := by
    rw [holding_put, hw]
    exact Function.update_eq_self (some w) (holding s)
  rw [ledger] at h ⊢
  rw [hl]
  exact h

theorem balanced_call {jobs : List Job} {s : Pool k} (h : (ledger jobs s).Balanced)
    {w : Fin (k + 1)} {wk : Worker} {job : Job} (c : Call)
    (hw : (held (s.workers w) : Multiset Job) = job ::ₘ held wk) :
    (ledger jobs ((s.call job c).put w wk)).Balanced := by
  have hset := h.settle (p := some w) hw
  rw [ledger] at hset ⊢
  rw [holding_put]
  exact hset

/-- A job passes from the queue to the worker that takes it. -/
theorem balanced_get {jobs : List Job} {s : Pool k} (h : (ledger jobs s).Balanced)
    {w : Fin (k + 1)} {job : Job} {queue : List Job} (hpc : (s.workers w).pc = .head)
    (hq : s.queue = job :: queue) :
    (ledger jobs ({ s with queue := queue }.setPc w (.got job))).Balanced := by
  have hnone : (ledger jobs s).held none = job ::ₘ (queue : Multiset Job) := by
    simp [ledger, holding, hq]
  have hgot : (held ⟨(s.workers w).acc, .got job⟩ : Multiset Job) = job ::ₘ holding s (some w) := by
    simp [held, hpc, pcHeld, holding]
  have hpass := h.pass (q := some w) (by simp) hnone
  rw [ledger] at hpass ⊢
  rw [Pool.setPc, holding_put, holding_queue, hgot]
  exact hpass

/-- A job whose domain is busy passes back to the end of the queue. -/
theorem balanced_requeue {jobs : List Job} {s : Pool k} (h : (ledger jobs s).Balanced)
    {w : Fin (k + 1)} {job : Job} (hpc : (s.workers w).pc = .got job) :
    (ledger jobs ({ s with queue := s.queue ++ [job] }.setPc w .sleeping)).Balanced := by
  have hgot : (ledger jobs s).held (some w) = job ::ₘ ((s.workers w).acc : Multiset Job) := by
    simp [ledger, holding, held, hpc, pcHeld]
  have hback : ((s.queue ++ [job] : List Job) : Multiset Job) = job ::ₘ holding s none := by
    simp [holding]
  have hsleep : held ⟨(s.workers w).acc, .sleeping⟩ = (s.workers w).acc := by
    simp [held, pcHeld]
  have hpass := h.pass (q := none) (by simp) hgot
  rw [ledger] at hpass ⊢
  rw [Pool.setPc, holding_put, holding_queue, hback, hsleep, Function.update_comm (by simp)]
  exact hpass

theorem effect_sound {jobs : List Job} {s t : Pool k} (hs : Sound jobs s) (h : Effect s t) :
    Sound jobs t := by
  cases h with
  | setStop => exact ⟨hs.sane, hs.balanced, fun hf => by cases hf⟩
  | exclude => exact ⟨hs.sane, hs.balanced, hs.live⟩
  | @empty w hpc hq =>
      refine ⟨forall_put hs.sane trivial, balanced_put hs.balanced ?_, ?_⟩
      · simp [held, hpc, pcHeld]
      · intro _ hne
        exact absurd hq hne
  | @get w job queue hpc hq =>
      exact ⟨forall_put hs.sane trivial, balanced_get hs.balanced hpc hq, fun _ _ => live_self id⟩
  | @excluded w job hpc =>
      refine ⟨forall_put hs.sane trivial, balanced_put hs.balanced ?_, ?_⟩
      · simp [held, hpc, pcHeld]
      · intro hf hne
        exact live_put False.elim (hs.live hf hne)
  | @requeue w job hpc =>
      exact ⟨forall_put hs.sane trivial, balanced_requeue hs.balanced hpc, fun _ _ => live_self id⟩
  | @claim w job isolation pc hpc hclaim hnext =>
      have hnl : ¬ Leaving pc := by
        rcases hnext with rfl | rfl
        · exact Bool.false_ne_true
        · exact id
      have hsane : Sane ⟨(s.workers w).acc ++ [job], pc⟩ := by
        rcases hnext with rfl | rfl <;> trivial
      have hheld : held ⟨(s.workers w).acc ++ [job], pc⟩ = held (s.workers w) := by
        rcases hnext with rfl | rfl <;> simp [held, hpc, pcHeld]
      exact ⟨forall_put hs.sane hsane,
        balanced_put (s := { s with isolation := isolation }) hs.balanced hheld,
        fun _ _ => live_self hnl⟩
  | @skip w job hpc =>
      refine ⟨forall_put hs.sane trivial, balanced_call hs.balanced _ ?_, ?_⟩
      · simp [held, hpc, pcHeld, Pool.call]
      · intro hf hne
        exact live_put (s := s.call job .accountSkipped) False.elim (hs.live hf hne)
  | @move w wk hl =>
      obtain ⟨hh, _, hsane, hleave⟩ := localStep_keeps hl (hs.sane w)
      refine ⟨forall_put hs.sane hsane, balanced_put hs.balanced hh, ?_⟩
      intro hf hne
      exact live_put (hleave hf) (hs.live hf hne)
  | @probed w results batch leaving hpc hle =>
      have hw := hs.sane w
      simp only [Sane, hpc] at hw
      have hz : (batch.zip (padResults (batch.map toBridgeJob) results)).map Prod.fst = batch := by
        apply List.map_fst_zip
        rw [padResults_length (by simpa using hle), List.length_map]
      refine ⟨forall_put hs.sane hw, balanced_put hs.balanced ?_, ?_⟩
      · simp only [held, hpc, pcHeld, hz]
      · intro hf hne
        exact live_put (by rw [hpc]; exact id) (hs.live hf hne)
  | @account w batch job result rest leaving c hpc =>
      have hw := hs.sane w
      simp only [Sane, hpc] at hw
      refine ⟨forall_put hs.sane hw, balanced_call hs.balanced c ?_, ?_⟩
      · simp [held, hpc, pcHeld, Pool.call, hw]
      · intro hf hne
        exact live_put (s := s.call job c) (by simp only [Pool.call, hpc]; exact id) (hs.live hf hne)
  | @release w batch leaving hpc =>
      have hw := hs.sane w
      simp only [Sane, hpc] at hw
      refine ⟨forall_put hs.sane hw, balanced_put (s := { s with isolation := _ }) hs.balanced ?_, ?_⟩
      · simp [held, hpc, pcHeld]
      · intro hf hne
        exact live_put (s := { s with isolation := _ }) (by simp only [hpc]; exact id) (hs.live hf hne)

theorem Exclusive.put {s u : Pool k} (h : Exclusive s) (hi : u.isolation = s.isolation)
    (hu : u.workers = s.workers) {w : Fin (k + 1)} {wk : Worker}
    (hw : claimed wk = claimed (s.workers w)) : Exclusive (u.put w wk) := by
  have hc : claimedDomains (u.put w wk) = claimedDomains s := by
    rw [claimedDomains_same (hu.symm ▸ hw)]
    simp only [claimedDomains]
    rw [hu]
  refine ⟨hi.symm ▸ h.enabled, hc.symm ▸ h.nodup, ?_⟩
  intro d hd
  exact hi.symm ▸ h.active d (hc ▸ hd)

/-- A claim adds the domain of its job to the claimed ones. -/
theorem claimedDomains_claim {s : Pool k} {w : Fin (k + 1)} {job : Job} {pc : Pc}
    (isolation : DomainIsolationPool) (hpc : (s.workers w).pc = .got job)
    (hnext : pc = .flush false ∨ pc = .head) :
    claimedDomains ({ s with isolation := isolation }.put w ⟨(s.workers w).acc ++ [job], pc⟩) =
      job.2 ::ₘ claimedDomains s := by
  have hput := claimedDomains_put s w ⟨(s.workers w).acc ++ [job], pc⟩
  have hnew : (((claimed ⟨(s.workers w).acc ++ [job], pc⟩).map Prod.snd : List String) :
      Multiset String) = {job.2} + ((claimed (s.workers w)).map Prod.snd : List String) := by
    rcases hnext with rfl | rfl <;> simp [claimed, hpc, pcClaimed]
  rw [hnew, ← add_assoc] at hput
  rw [← Multiset.singleton_add, add_comm {job.2}]
  exact add_right_cancel hput

theorem claimedDomains_release {s : Pool k} {w : Fin (k + 1)} {batch : List Job} {leaving : Bool}
    (isolation : DomainIsolationPool) (hpc : (s.workers w).pc = .releasing batch leaving)
    (hacc : (s.workers w).acc = []) :
    claimedDomains ({ s with isolation := isolation }.setPc w (.resume leaving)) +
      (batch.map Prod.snd : List String) = claimedDomains s := by
  have hput := claimedDomains_put s w ⟨(s.workers w).acc, .resume leaving⟩
  simp only [claimed, hpc, pcClaimed, hacc, List.nil_append, List.map_nil, Multiset.coe_nil,
    add_zero] at hput
  rw [← hacc] at hput
  exact hput

theorem effect_exclusive {s t : Pool k} (hs : ∀ w, Sane (s.workers w)) (hx : Exclusive s)
    (h : Effect s t) : Exclusive t := by
  cases h with
  | setStop => exact ⟨hx.enabled, hx.nodup, hx.active⟩
  | exclude => exact ⟨hx.enabled, hx.nodup, hx.active⟩
  | @empty w hpc hq => exact hx.put rfl rfl (by simp [claimed, hpc, pcClaimed])
  | @get w job queue hpc hq =>
      exact hx.put (u := { s with queue := queue }) rfl rfl (by simp [claimed, hpc, pcClaimed])
  | @excluded w job hpc => exact hx.put rfl rfl (by simp [claimed, hpc, pcClaimed])
  | @requeue w job hpc =>
      exact hx.put (u := { s with queue := s.queue ++ [job] }) rfl rfl
        (by simp [claimed, hpc, pcClaimed])
  | @skip w job hpc =>
      exact hx.put (u := s.call job .accountSkipped) rfl rfl
        (by simp [claimed, hpc, pcClaimed, Pool.call])
  | @move w wk hl => exact hx.put rfl rfl (localStep_keeps hl (hs w)).2.1
  | @probed w results batch leaving hpc hle =>
      exact hx.put rfl rfl (by simp [claimed, hpc, pcClaimed])
  | @account w batch job result rest leaving c hpc =>
      exact hx.put (u := s.call job c) rfl rfl (by simp [claimed, hpc, pcClaimed, Pool.call])
  | @claim w job isolation pc hpc hclaim hnext =>
      obtain ⟨hfree, rfl⟩ := DomainIsolationPool.claimDomain_granted hx.enabled hclaim
      have hadd := fun isolation => claimedDomains_claim isolation hpc hnext
      refine ⟨hx.enabled, ?_, ?_⟩
      · rw [hadd, Multiset.nodup_cons]
        exact ⟨fun hd => hfree (hx.active _ hd), hx.nodup⟩
      · intro d hd
        rw [hadd, Multiset.mem_cons] at hd
        rcases hd with rfl | hd
        · exact Finset.mem_insert_self _ _
        · exact Finset.mem_insert_of_mem (hx.active d hd)
  | @release w batch leaving hpc =>
      have hw := hs w
      simp only [Sane, hpc] at hw
      have hsplit := fun isolation => claimedDomains_release isolation hpc hw
      have hnodup := hx.nodup
      rw [← hsplit (s.isolation.releaseDomains (batch.map Prod.snd)), Multiset.nodup_add] at hnodup
      refine ⟨by simpa [Pool.setPc, Pool.put] using hx.enabled, hnodup.1, ?_⟩
      intro d hd
      refine (DomainIsolationPool.mem_releaseDomains hx.enabled).mpr ⟨hx.active d ?_, ?_⟩
      · rw [← hsplit (s.isolation.releaseDomains (batch.map Prod.snd))]
        exact Multiset.mem_add.mpr (Or.inl hd)
      · intro hb
        exact Multiset.disjoint_left.mp hnodup.2.2 hd (Multiset.mem_coe.mpr hb)

theorem initial_sound (isolate : Bool) (jobs : List Job) (active excluded : Finset String) :
    Sound jobs (initial k isolate jobs active excluded) := by
  refine ⟨fun _ => trivial, ?_, fun _ _ => ⟨0, id⟩⟩
  simp [Ledger.Balanced, ledger, holding, initial, held, pcHeld, Fintype.sum_option]

theorem initial_exclusive (jobs : List Job) (active excluded : Finset String) :
    Exclusive (initial k true jobs active excluded) := by
  have hnone : claimedDomains (initial k true jobs active excluded) = 0 := by
    simp [claimedDomains, initial, claimed, pcClaimed]
  exact ⟨rfl, by simp [hnone], by simp [hnone]⟩

/-- With isolation enabled no two jobs in accumulators or batches ever share a
domain. When all workers have returned without a stop, the queue is empty and
each queued job was passed to a callback exactly once. -/
theorem queue_workers_exclusive_and_exact (jobs : List Job) (k batchSize : Nat)
    (active excluded : Finset String) (schedule : List (Action k)) (s : Pool k)
    (hrun : run (step batchSize) (initial k true jobs active excluded) schedule = some s) :
    (claimedDomains s).Nodup ∧
      (s.stop = false → (∀ w, (s.workers w).pc = .returned) →
        s.queue = [] ∧ (s.calls.map Prod.fst).Perm jobs) := by
  obtain ⟨hs, hx⟩ : Sound jobs s ∧ Exclusive s := by
    refine run_invariant (P := fun s => Sound jobs s ∧ Exclusive s) ?_
      ⟨initial_sound true jobs active excluded, initial_exclusive jobs active excluded⟩ hrun
    intro u a t hu ht
    have heff := step_effect ht
    exact ⟨effect_sound hu.1 heff, effect_exclusive hu.1.sane hu.2 heff⟩
  refine ⟨hx.nodup, fun hstop hret => ?_⟩
  have hq : s.queue = [] := by
    by_contra hne
    obtain ⟨w, hw⟩ := hs.live hstop hne
    rw [hret w] at hw
    exact hw trivial
  have hnone : ∀ p, (ledger jobs s).held p = 0 := by
    intro p
    cases p with
    | none => simp [ledger, holding, hq]
    | some w =>
        have hw := hs.sane w
        simp only [Sane, hret w] at hw
        simp [ledger, holding, held, pcHeld, hret w, hw]
  exact ⟨hq, (Multiset.coe_eq_coe.mp (hs.balanced.issued_eq_settled_iff.mpr hnone)).symm⟩

def splitJob : Job := (splitItem, "a.example")

def fakeJob : Job := (fakeItem, "a.example")

/-- Both workers take a job of the same domain; the second one puts its job back
and gets it again after the release. -/
def contention (v w : Fin 2) : List (Action 1) :=
  [.get v, .place v, .get w, .place w, .move v, .move w, .move w, .move w,
    .batchReturns v [{ item := splitJob.1, domain := "a.example", success := true }], .account v,
    .move v, .release v, .move v, .get w, .get v, .move v, .move v, .place w, .move w,
    .batchReturns w [], .account w, .move w, .release w, .move w, .get w, .move w, .move w]

theorem contention_exact : ∃ s,
    run (step 1) (initial 1 true [splitJob, fakeJob] ∅ ∅) (contention 0 1) = some s ∧
    (claimedDomains s).Nodup ∧ s.queue = [] ∧ (s.calls.map Prod.fst).Perm [splitJob, fakeJob] := by
  have hrun : (run (step 1) (initial 1 true [splitJob, fakeJob] ∅ ∅) (contention 0 1)).any (fun s =>
      decide (s.stop = false ∧ ∀ w, (s.workers w).pc = .returned)) = true := by
    decide +kernel
  obtain ⟨s, hs, hend⟩ := Option.any_eq_true _ _ |>.mp hrun
  obtain ⟨hstop, hret⟩ := of_decide_eq_true hend
  obtain ⟨hnodup, hend⟩ := queue_workers_exclusive_and_exact _ 1 1 ∅ ∅ (contention 0 1) s hs
  exact ⟨s, hs, hnodup, hend hstop hret⟩

end Blockchecks.QueueBridgeRuns
