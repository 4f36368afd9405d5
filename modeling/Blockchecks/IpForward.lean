import Blockchecks.NetnsPool
import Mathlib.Data.Fintype.Basic

namespace Blockchecks.IpForward

open Runs NetnsPool

variable {Pool Thread : Type} [DecidableEq Pool] [DecidableEq Thread]

/-- ip_forward is on while a namespace lives, and back at its first value when none
does, whenever no call is in progress. -/
def Kept (value : String) (s : State Pool Thread) : Prop :=
  (∀ t, s.pc t = .idle) → (s.live ≠ [] → s.ipForward = "1") ∧ (s.live = [] → s.ipForward = value)

def isRestoring : Pc Pool → Bool
  | .restoring _ _ _ => true
  | _ => false

/-- A namespace that a thread is about to count off is one that counts. -/
def CountsLive (s : State Pool Thread) : Pc Pool → Prop
  | .destroying call (i :: _) => counts s call i = true → s.activeNsCount ≠ 0 → (call.pool, i) ∈ s.live
  | _ => True

instance decidableCountsLive (s : State Pool Thread) : (pc : Pc Pool) → Decidable (CountsLive s pc)
  | .destroying _ (_ :: _) => inferInstanceAs (Decidable (_ → _ → _))
  | .destroying _ [] | .idle | .creating _ _ | .tracking _ _ | .enabling _ _ | .checking _ _ | .restoring _ _ _ =>
      isTrue trivial

/-- The step is at none of the places where the calls of several threads go wrong: the
first namespace is tracked when ip_forward can be read and no restore is under way, and
only a namespace that still counts is counted off. -/
def Calm (s : State Pool Thread) : NetnsPool.Action Pool Thread → Prop
  | .trackNsCreated _ readable => s.activeNsCount = 0 →
      readable = true ∧ ∀ t, isRestoring (s.pc t) = false
  | .proceed t => CountsLive s (s.pc t)
  | _ => True

/-- Neither at a sysctl nor behind one. -/
def Quiet : Pc Pool → Prop
  | .enabling _ _ => False
  | .restoring _ _ _ => False
  | _ => True

/-- Who has to do something to ip_forward next. -/
inductive Phase (value : String) (s : State Pool Thread) : Prop where
  | resting (hquiet : ∀ t, Quiet (s.pc t)) (hlock : s.ipForwardLock = none) (hcount : s.activeNsCount = 0)
      (hrestore : s.ipForwardRestore = none) (hforward : s.ipForward = value)
  | held (hquiet : ∀ t, Quiet (s.pc t)) (hlock : s.ipForwardLock = none) (hcount : s.activeNsCount ≠ 0)
      (hrestore : s.ipForwardRestore = if value = "1" then none else some value) (hforward : s.ipForward = "1")
  | releasing (t : Thread) (call : Destroyer Pool) (names : List Nat) (ht : s.pc t = .checking call names)
      (hquiet : ∀ t, Quiet (s.pc t)) (hlock : s.ipForwardLock = none) (hcount : s.activeNsCount = 0)
      (hrestore : s.ipForwardRestore = some value) (hvalue : value ≠ "1") (hforward : s.ipForward = "1")
  | restoring (t : Thread) (call : Destroyer Pool) (names : List Nat) (ht : s.pc t = .restoring call value names)
      (hquiet : ∀ u, u ≠ t → Quiet (s.pc u)) (hlock : s.ipForwardLock = none) (hcount : s.activeNsCount = 0)
      (hrestore : s.ipForwardRestore = none)
  | enabling (t : Thread) (pool : Pool) (i : Nat) (ht : s.pc t = .enabling pool i)
      (hquiet : ∀ u, u ≠ t → Quiet (s.pc u)) (hlock : s.ipForwardLock = some t) (hcount : s.activeNsCount = 0)
      (hrestore : s.ipForwardRestore = some value) (hvalue : value ≠ "1")

structure Inv (value : String) (s : State Pool Thread) : Prop where
  live : s.activeNsCount = s.live.length
  phase : Phase value s

variable {value : String} {s s' : State Pool Thread} {t : Thread}

omit [DecidableEq Pool] [DecidableEq Thread] in
theorem start_inv (size : Pool → Nat) (value : String) : Inv value (start size value : State Pool Thread) :=
  ⟨rfl, .resting (fun _ => trivial) rfl rfl rfl rfl⟩

omit [DecidableEq Pool] [DecidableEq Thread] in
theorem Inv.kept (h : Inv value s) : Kept value s := by
  intro hidle
  have hlive := h.live
  cases h.phase with
  | resting hquiet hlock hcount hrestore hforward =>
      rw [hcount, eq_comm, List.length_eq_zero_iff] at hlive
      exact ⟨fun h => absurd hlive h, fun _ => hforward⟩
  | held hquiet hlock hcount hrestore hforward =>
      refine ⟨fun _ => hforward, fun hnil => ?_⟩
      rw [hnil] at hlive
      exact absurd hlive hcount
  | releasing t call names ht => cases (hidle t).symm.trans ht
  | restoring t call names ht => cases (hidle t).symm.trans ht
  | enabling t pool i ht => cases (hidle t).symm.trans ht

omit [DecidableEq Pool] in
theorem quiet_update (pcs : Thread → Pc Pool) {pc : Pc Pool} (hpc : Quiet pc) {u : Thread} (h : u ≠ t → Quiet (pcs u)) :
    Quiet (Function.update pcs t pc u) := by
  by_cases hu : u = t
  · rw [hu, Function.update_self]
    exact hpc
  · rw [Function.update_of_ne hu]
    exact h hu

omit [DecidableEq Pool] in
/-- A thread that is at nothing of ip_forward goes on without touching it. -/
theorem Phase.goto (h : Phase value s) {pc : Pc Pool} (hpc : Quiet pc) (hquiet : Quiet (s.pc t))
    (hcheck : ∀ call names, s.pc t ≠ .checking call names) : Phase value (s.goto t pc) := by
  cases h with
  | resting hall hlock hcount hrestore hforward =>
      exact .resting (fun u => quiet_update _ hpc (fun _ => hall u)) hlock hcount hrestore hforward
  | held hall hlock hcount hrestore hforward =>
      exact .held (fun u => quiet_update _ hpc (fun _ => hall u)) hlock hcount hrestore hforward
  | releasing u call names hu hall hlock hcount hrestore hvalue hforward =>
      have hne : u ≠ t := fun heq => hcheck call names (heq ▸ hu)
      exact .releasing u call names ((Function.update_of_ne hne _ _).trans hu)
        (fun u => quiet_update _ hpc (fun _ => hall u)) hlock hcount hrestore hvalue hforward
  | restoring u call names hu hothers hlock hcount hrestore =>
      have hne : u ≠ t := fun heq => by
        rw [← heq, hu] at hquiet
        exact hquiet
      refine .restoring u call names ((Function.update_of_ne hne _ _).trans hu) (fun w hw => ?_) hlock hcount hrestore
      exact quiet_update _ hpc (fun _ => hothers w hw)
  | enabling u pool i hu hothers hlock hcount hrestore hvalue =>
      have hne : u ≠ t := fun heq => by
        rw [← heq, hu] at hquiet
        exact hquiet
      refine .enabling u pool i ((Function.update_of_ne hne _ _).trans hu) (fun w hw => ?_) hlock hcount hrestore hvalue
      exact quiet_update _ hpc (fun _ => hothers w hw)

omit [DecidableEq Thread] in
theorem Phase.update (h : Phase value s) (pool : Pool) (f : PoolState Thread → PoolState Thread) :
    Phase value (s.update pool f) := by
  cases h with
  | resting hall hlock hcount hrestore hforward => exact .resting hall hlock hcount hrestore hforward
  | held hall hlock hcount hrestore hforward => exact .held hall hlock hcount hrestore hforward
  | releasing u call names hu hall hlock hcount hrestore hvalue hforward =>
      exact .releasing u call names hu hall hlock hcount hrestore hvalue hforward
  | restoring u call names hu hothers hlock hcount hrestore =>
      exact .restoring u call names hu hothers hlock hcount hrestore
  | enabling u pool i hu hothers hlock hcount hrestore hvalue =>
      exact .enabling u pool i hu hothers hlock hcount hrestore hvalue

omit [DecidableEq Pool] in
theorem Inv.goto (h : Inv value s) {pc : Pc Pool} (hpc : Quiet pc) (hquiet : Quiet (s.pc t))
    (hcheck : ∀ call names, s.pc t ≠ .checking call names) : Inv value (s.goto t pc) :=
  ⟨h.live, h.phase.goto hpc hquiet hcheck⟩

omit [DecidableEq Thread] in
theorem Inv.update (h : Inv value s) (pool : Pool) (f : PoolState Thread → PoolState Thread) :
    Inv value (s.update pool f) := ⟨h.live, h.phase.update pool f⟩

omit [DecidableEq Pool] in
/-- A thread about to do something else than destroy or touch ip_forward. -/
theorem Inv.move (h : Inv value s) {pc pc' : Pc Pool} (hpc : s.pc t = pc) (hquiet : Quiet pc)
    (hcheck : ∀ call names, pc ≠ .checking call names) (hpc' : Quiet pc') : Inv value (s.goto t pc') := by
  rw [← hpc] at hquiet hcheck
  exact h.goto hpc' hquiet hcheck

theorem createOne_inv (h : Inv value s) {ok : Bool} (hstep : createOne s t ok = some s') : Inv value s' := by
  rw [createOne] at hstep
  split at hstep
  next pool i hpc =>
    split at hstep
    next =>
      cases hstep
      exact (h.update pool _).move hpc trivial nofun trivial
    next =>
      split at hstep
      next =>
        cases hstep
        exact (h.update pool _).move hpc trivial nofun trivial
      next =>
        cases hstep
        exact h.move hpc trivial nofun trivial
  next => cases hstep

omit [DecidableEq Pool] in
/-- The namespace that is counted when ip_forward is on. -/
theorem Phase.created (hothers : ∀ u, u ≠ t → Quiet (s.pc u)) (hlock : s.ipForwardLock = none)
    (hrestore : s.ipForwardRestore = if value = "1" then none else some value) (hforward : s.ipForward = "1")
    (pool : Pool) (i : Nat) : Phase value (s.created t pool i) :=
  have hpc : Quiet (.creating pool (i + 1)) := trivial
  .held (fun u => quiet_update _ hpc (hothers u)) hlock (Nat.succ_ne_zero _) hrestore hforward

omit [DecidableEq Pool] in
theorem live_created (h : s.activeNsCount = s.live.length) (pool : Pool) (i : Nat) :
    (s.created t pool i).activeNsCount = (s.created t pool i).live.length := by
  change s.activeNsCount + 1 = (s.live ++ [(pool, i)]).length
  rw [List.length_append, List.length_singleton, h]

omit [DecidableEq Pool] in
theorem trackNsCreated_inv (h : Inv value s) {readable : Bool}
    (hcalm : Calm s (.trackNsCreated t readable)) (hstep : trackNsCreated s t readable = some s') : Inv value s' := by
  rw [trackNsCreated] at hstep
  split at hstep
  next pool i hpc hfree =>
    split at hstep
    next henable =>
      obtain ⟨hcount, -, hoff⟩ := henable
      cases hstep
      refine ⟨h.live, ?_⟩
      cases h.phase with
      | resting hquiet hlock _ hrestore hforward =>
          refine .enabling t pool i (Function.update_self ..) (fun u hu => ?_) rfl hcount ?_ (hforward ▸ hoff)
          · change Quiet (Function.update s.pc t _ u)
            rw [Function.update_of_ne hu]
            exact hquiet u
          · change some (s.ipForwardRestore.getD s.ipForward) = some value
            rw [hrestore, hforward]
            rfl
      | held _ _ hne => exact absurd hcount hne
      | releasing _ _ _ _ _ _ _ _ _ hforward => exact absurd hforward hoff
      | restoring u call names hu =>
          have hnone := (hcalm hcount).2 u
          rw [hu] at hnone
          cases hnone
      | enabling _ _ _ _ _ hlock => cases hfree.symm.trans hlock
    next hon =>
      cases hstep
      refine ⟨live_created h.live pool i, ?_⟩
      cases h.phase with
      | resting hquiet hlock hcount hrestore hforward =>
          have hone : s.ipForward = "1" := by
            by_contra hoff
            exact hon ⟨hcount, (hcalm hcount).1, hoff⟩
          refine .created (fun u _ => hquiet u) hlock ?_ hone pool i
          rw [hrestore, if_pos (hforward.symm.trans hone)]
      | held hquiet hlock _ hrestore hforward => exact .created (fun u _ => hquiet u) hlock hrestore hforward pool i
      | releasing _ _ _ _ hquiet hlock _ hrestore hvalue hforward =>
          refine .created (fun u _ => hquiet u) hlock ?_ hforward pool i
          rw [hrestore, if_neg hvalue]
      | restoring u call names hu _ _ hcount =>
          have hnone := (hcalm hcount).2 u
          rw [hu] at hnone
          cases hnone
      | enabling _ _ _ _ _ hlock => cases hfree.symm.trans hlock
  next => cases hstep

omit [DecidableEq Thread] in
theorem live_destroyed (h : s.activeNsCount = s.live.length) {pool : Pool} {i : Nat}
    (hmem : s.activeNsCount ≠ 0 → (pool, i) ∈ s.live) :
    (s.destroyed pool i).activeNsCount = (s.destroyed pool i).live.length := by
  change s.activeNsCount - 1 = (s.live.erase (pool, i)).length
  by_cases hzero : s.activeNsCount = 0
  · rw [hzero, eq_comm, List.length_eq_zero_iff] at h
    rw [hzero, h]
    rfl
  · rw [List.length_erase_of_mem (hmem hzero), h]

/-- Counting a namespace off. -/
theorem Phase.destroyed (h : Phase value s) {call : Destroyer Pool} {i : Nat} {names : List Nat}
    (hpc : s.pc t = .destroying call (i :: names)) (hfree : s.ipForwardLock = none) :
    Phase value ((s.destroyed call.pool i).goto t (.checking call names)) := by
  have hzero : s.activeNsCount = 0 → (s.destroyed call.pool i).activeNsCount = 0 := fun hcount => by
    change s.activeNsCount - 1 = 0
    rw [hcount]
  have hchecking : Quiet (.checking call names) := trivial
  cases h with
  | resting hquiet hlock hcount hrestore hforward =>
      exact .resting (fun u => quiet_update _ hchecking (fun _ => hquiet u)) hlock (hzero hcount) hrestore hforward
  | held hquiet hlock hcount hrestore hforward =>
      have hquiet' : ∀ u, Quiet (((s.destroyed call.pool i).goto t (.checking call names)).pc u) := fun u =>
        quiet_update _ hchecking (fun _ => hquiet u)
      by_cases hlast : s.activeNsCount - 1 = 0
      · by_cases hvalue : value = "1"
        · rw [if_pos hvalue] at hrestore
          exact .resting hquiet' hlock hlast hrestore (hforward.trans hvalue.symm)
        · rw [if_neg hvalue] at hrestore
          exact .releasing t call names (Function.update_self ..) hquiet' hlock hlast hrestore hvalue hforward
      · exact .held hquiet' hlock hlast hrestore hforward
  | releasing u call' names' hu hquiet hlock hcount hrestore hvalue hforward =>
      exact .releasing t call names (Function.update_self ..) (fun u => quiet_update _ hchecking (fun _ => hquiet u)) hlock
        (hzero hcount) hrestore hvalue hforward
  | restoring u call' names' hu hothers hlock hcount hrestore =>
      have hne : u ≠ t := fun heq => by
        rw [heq, hpc] at hu
        cases hu
      refine .restoring u call' names' ((Function.update_of_ne hne _ _).trans hu) (fun w hw => ?_) hlock (hzero hcount)
        hrestore
      exact quiet_update _ hchecking (fun _ => hothers w hw)
  | enabling _ _ _ _ _ hlock => cases hfree.symm.trans hlock

omit [DecidableEq Pool] in
/-- The sysctl under the lock. -/
theorem Phase.enabled (h : Phase value s) {pool : Pool} {i : Nat} (hpc : s.pc t = .enabling pool i) :
    Phase value ({ s with ipForward := "1", ipForwardLock := none }.created t pool i) := by
  have hbusy : ¬ Quiet (s.pc t) := by
    rw [hpc]
    exact id
  cases h with
  | resting hquiet => exact absurd (hquiet t) hbusy
  | held hquiet => exact absurd (hquiet t) hbusy
  | releasing _ _ _ _ hquiet => exact absurd (hquiet t) hbusy
  | restoring u call names hu hothers =>
      by_cases hut : t = u
      · rw [← hut, hpc] at hu
        cases hu
      · exact absurd (hothers t hut) hbusy
  | enabling u pool' i' hu hothers hlock hcount hrestore hvalue =>
      by_cases hut : t = u
      · refine Phase.created (s := { s with ipForward := "1", ipForwardLock := none })
          (fun w hw => hothers w (hut ▸ hw)) rfl ?_ rfl pool i
        rw [if_neg hvalue]
        exact hrestore
      · exact absurd (hothers t hut) hbusy

omit [DecidableEq Pool] in
/-- The sysctl behind the lock. -/
theorem Phase.restored (h : Phase value s) {call : Destroyer Pool} {final : String} {names : List Nat}
    (hpc : s.pc t = .restoring call final names) :
    Phase value ({ s with ipForward := final }.goto t (.destroying call names)) := by
  have hbusy : ¬ Quiet (s.pc t) := by
    rw [hpc]
    exact id
  have hdestroying : Quiet (.destroying call names) := trivial
  cases h with
  | resting hquiet => exact absurd (hquiet t) hbusy
  | held hquiet => exact absurd (hquiet t) hbusy
  | releasing _ _ _ _ hquiet => exact absurd (hquiet t) hbusy
  | restoring u call' names' hu hothers hlock hcount hrestore =>
      by_cases hut : t = u
      · rw [← hut, hpc] at hu
        cases hu
        exact .resting (fun w => quiet_update _ hdestroying (fun hw => hothers w (hut ▸ hw))) hlock hcount hrestore rfl
      · exact absurd (hothers t hut) hbusy
  | enabling u pool i hu hothers =>
      by_cases hut : t = u
      · rw [← hut, hpc] at hu
        cases hu
      · exact absurd (hothers t hut) hbusy

omit [DecidableEq Pool] in
/-- The section of restore_ip_forward_if_idle. -/
theorem checked_inv (h : Inv value s) {call : Destroyer Pool} {names : List Nat} (hpc : s.pc t = .checking call names)
    (hfree : s.ipForwardLock = none)
    (hstep : (if s.activeNsCount > 0 then some (s.goto t (.destroying call names))
      else match s.ipForwardRestore with
        | none => some (s.goto t (.destroying call names))
        | some value => some ({ s with ipForwardRestore := none }.goto t (.restoring call value names))) = some s') :
    Inv value s' := by
  have hdestroying : Quiet (.destroying call names) := trivial
  split at hstep
  next hpos =>
    cases hstep
    refine ⟨h.live, ?_⟩
    cases h.phase with
    | held hquiet hlock hcount hrestore hforward =>
        exact .held (fun u => quiet_update _ hdestroying (fun _ => hquiet u)) hlock hcount hrestore hforward
    | resting _ _ hcount => omega
    | releasing _ _ _ _ _ _ hcount => omega
    | restoring _ _ _ _ _ _ hcount => omega
    | enabling _ _ _ _ _ _ hcount => omega
  next hzero =>
    split at hstep
    next hnone =>
      cases hstep
      refine ⟨h.live, ?_⟩
      cases h.phase with
      | resting hquiet hlock hcount hrestore hforward =>
          exact .resting (fun u => quiet_update _ hdestroying (fun _ => hquiet u)) hlock hcount hrestore hforward
      | held _ _ hcount => omega
      | releasing _ _ _ _ _ _ _ hrestore => cases hnone.symm.trans hrestore
      | restoring u call' names' hu hothers hlock hcount hrestore =>
          have hne : u ≠ t := fun heq => by
            rw [heq, hpc] at hu
            cases hu
          refine .restoring u call' names' ((Function.update_of_ne hne _ _).trans hu) (fun w hw => ?_) hlock hcount
            hrestore
          exact quiet_update _ hdestroying (fun _ => hothers w hw)
      | enabling _ _ _ _ _ hlock => cases hfree.symm.trans hlock
    next final hsome =>
      cases hstep
      refine ⟨h.live, ?_⟩
      cases h.phase with
      | resting _ _ _ hrestore => cases hsome.symm.trans hrestore
      | held _ _ hcount => omega
      | releasing _ _ _ _ hquiet hlock hcount hrestore =>
          obtain rfl : final = value := Option.some.inj (hsome.symm.trans hrestore)
          refine .restoring t call names (Function.update_self ..) (fun u hu => ?_) hlock hcount rfl
          change Quiet (Function.update s.pc t _ u)
          rw [Function.update_of_ne hu]
          exact hquiet u
      | restoring _ _ _ _ _ _ _ hrestore => cases hsome.symm.trans hrestore
      | enabling _ _ _ _ _ hlock => cases hfree.symm.trans hlock

theorem proceed_inv (h : Inv value s) (hcalm : Calm s (.proceed t)) (hstep : proceed s t = some s') : Inv value s' := by
  rw [proceed] at hstep
  split at hstep
  next pool i hpc =>
    cases hstep
    exact ⟨live_created (s := { s with ipForward := "1", ipForwardLock := none }) (t := t) h.live pool i,
      h.phase.enabled hpc⟩
  next pool hpc =>
    cases hstep
    exact (h.update pool _).move hpc trivial nofun trivial
  next pool hpc =>
    split at hstep
    next =>
      cases hstep
      exact (h.update pool _).move hpc trivial nofun trivial
    next => cases hstep
  next call i names hpc =>
    split at hstep
    next =>
      cases hstep
      exact h.move hpc trivial nofun trivial
    next hcounts =>
      split at hstep
      next hfree =>
        cases hstep
        rw [Bool.not_eq_false] at hcounts
        rw [Calm, hpc] at hcalm
        exact ⟨live_destroyed h.live (hcalm hcounts), h.phase.destroyed hpc hfree⟩
      next => cases hstep
  next call names hpc =>
    split at hstep
    next => cases hstep
    next hfree =>
      rw [not_not] at hfree
      exact checked_inv h hpc hfree hstep
  next call final names hpc =>
    cases hstep
    exact ⟨h.live, h.phase.restored hpc⟩
  next => cases hstep

theorem step_inv {action : NetnsPool.Action Pool Thread} (h : Inv value s) (hcalm : Calm s action)
    (hstep : step s action = some s') : Inv value s' := by
  cases action with
  | createAll t pool =>
      rw [step] at hstep
      split at hstep
      next => cases hstep
      next hidle =>
        rw [not_or, not_not] at hidle
        split at hstep
        next =>
          cases hstep
          exact h
        next =>
          cases hstep
          exact (h.update pool _).move hidle.1 trivial nofun trivial
  | destroyAll t pool =>
      rw [step] at hstep
      split at hstep
      next => cases hstep
      next hidle =>
        rw [not_or, not_not] at hidle
        split at hstep
        next =>
          cases hstep
          exact h
        next =>
          cases hstep
          exact (h.update pool _).move hidle.1 trivial nofun trivial
  | createOne t ok => exact createOne_inv h hstep
  | trackNsCreated t readable => exact trackNsCreated_inv h hcalm hstep
  | proceed t => exact proceed_inv h hcalm hstep

/-- In a run of calm steps ip_forward is kept in every state. -/
theorem forward_kept (size : Pool → Nat) (value : String) {actions : List (NetnsPool.Action Pool Thread)}
    {s : State Pool Thread} (hrun : run step (start size value) actions = some s)
    (hcalm : Along step Calm (start size value) actions) : Kept value s :=
  (along_invariant (P := Inv value) (fun _ _ _ h hcalm hstep => step_inv h hcalm hstep) (start_inv size value) hcalm
    hrun).kept

instance decidableCalm [Fintype Thread] (s : State Pool Thread) : (a : NetnsPool.Action Pool Thread) → Decidable (Calm s a)
  | .trackNsCreated _ _ => inferInstanceAs (Decidable (_ → _))
  | .proceed t => decidableCountsLive s (s.pc t)
  | .createAll _ _ | .destroyAll _ _ | .createOne _ _ => isTrue trivial

def createPool (t pool : Bool) : List (NetnsPool.Action Bool Bool) :=
  [.createAll t pool, .createOne t true, .trackNsCreated t true]

/-- A second pool is created once the first one is restored. -/
def oneAfterTheOther : List (NetnsPool.Action Bool Bool) :=
  createPool false false ++ [.proceed false, .createOne false true, .destroyAll false false, .proceed false,
    .proceed false, .proceed false, .proceed false] ++ createPool true true ++ [.proceed true, .createOne true true]

theorem oneAfterTheOther_kept : ∃ s, run step (start (fun _ => 1) "0") oneAfterTheOther = some s ∧
    s.live = [(true, 0)] ∧ Kept "0" s := by
  have hend : (run step (start (fun _ => 1) "0") oneAfterTheOther).any
      (fun s => decide (s.live = [(true, 0)])) = true := by
    decide +kernel
  have hcalm : Along step Calm (start (fun _ => 1) "0") oneAfterTheOther := by decide +kernel
  obtain ⟨s, hrun, hlive⟩ := (Option.any_eq_true _ _).mp hend
  exact ⟨s, hrun, of_decide_eq_true hlive, forward_kept (fun _ => 1) "0" hrun hcalm⟩

/-- It is created between the section that takes the saved value and the sysctl. -/
def betweenSectionAndSysctl : List (NetnsPool.Action Bool Bool) :=
  createPool false false ++ [.proceed false, .createOne false true, .destroyAll false false, .proceed false,
    .proceed false] ++ createPool true true ++ [.createOne true true, .proceed false, .proceed false]

theorem betweenSectionAndSysctl_off : ∃ s, run step (start (fun _ => 1) "0") betweenSectionAndSysctl = some s ∧
    s.live = [(true, 0)] ∧ s.ipForward = "0" ∧ ¬ Kept "0" s := by
  have hend : (run step (start (fun _ => 1) "0") betweenSectionAndSysctl).any (fun s =>
      decide (s.live = [(true, 0)] ∧ s.ipForward = "0" ∧ ∀ t, s.pc t = .idle)) = true := by
    decide +kernel
  obtain ⟨s, hrun, hs⟩ := (Option.any_eq_true _ _).mp hend
  obtain ⟨hlive, hforward, hidle⟩ := of_decide_eq_true hs
  refine ⟨s, hrun, hlive, hforward, fun h => ?_⟩
  have hone := (h hidle).1 (by rw [hlive]; exact List.cons_ne_nil _ _)
  rw [hforward] at hone
  exact absurd hone (by decide)

end Blockchecks.IpForward
