import Blockchecks.RunLock
import Blockchecks.RunControlAlone
import Mathlib.Data.Fintype.Basic

namespace Blockchecks.RunLockRuns

open Runs RunControl RunControlAlone RunLock

/-- The unlinks that are not the end of the session of the process itself. -/
def unlinks : Pc → Bool
  | .clearStale _ | .unlinkExisting _ | .clearStopped | .clear => true
  | _ => false

def Plain : Pc → Prop
  | .write _ _ | .leaveSession => False
  | _ => True

/-- What an operation does to the files and to its process. -/
inductive Effect (f : Files) (me : Process) : Files → Process → Prop
  | goes (pc : Pc) (hpc : Plain pc) : Effect f me f (me.goto pc)
  | creates (registration : Registration) (hfree : f.entry = none) :
      Effect f me f.create { me with pc := .write registration f.next, fd := some f.next }
  | writes (registration : Registration) (fd : Nat) (content : ByteArray)
      (hpc : me.pc = .write registration fd) :
      Effect f me (f.write fd content) { me with pc := .idle, holding := true }
  | fails (registration : Registration) (fd : Nat) (hpc : me.pc = .write registration fd) :
      Effect f me f { me with pc := .idle, fd := none }
  | removes (pc : Pc) (hpc : Plain pc) (hun : unlinks me.pc = true) : Effect f me f.unlink (me.goto pc)
  | leaves (hpc : me.pc = .leaveSession) :
      Effect f me f.unlink { me with pc := .idle, fd := none, holding := false }

theorem afterRead_goto (me : Process) (caller : Caller) (info : Option ActiveRunInfo) :
    ∃ pc, me.afterRead caller info = me.goto pc ∧ Plain pc := by
  cases caller with
  | alone => exact ⟨_, rfl, trivial⟩
  | register registration =>
      cases info with
      | none => exact ⟨_, rfl, trivial⟩
      | some existing =>
          rw [Process.afterRead]
          split
          · exact ⟨_, rfl, trivial⟩
          · exact ⟨_, rfl, trivial⟩
  | stop force =>
      cases info with
      | none => exact ⟨_, rfl, trivial⟩
      | some info =>
          rw [Process.afterRead]
          split
          · exact ⟨_, rfl, trivial⟩
          · exact ⟨_, rfl, trivial⟩

theorem effect_afterRead (f : Files) (me : Process) (caller : Caller) (info : Option ActiveRunInfo) :
    Effect f me f (me.afterRead caller info) := by
  obtain ⟨pc, heq, hpc⟩ := afterRead_goto me caller info
  rw [heq]
  exact .goes pc hpc

theorem effect_of_operate {conv : Conversions} {processes : Processes} {choice : Bool} {f g : Files}
    {me you : Process} (h : operate conv processes choice f me = some (g, you)) :
    Effect f me g you := by
  obtain ⟨pid, pc, fd, holding⟩ := me
  rw [operate] at h
  cases pc with
  | idle => cases h
  | create registration last =>
      dsimp only at h
      split at h
      · cases h
        cases last with
        | true => exact .goes _ trivial
        | false => exact .goes _ trivial
      · cases h
        exact .creates registration ‹_›
  | write registration fd =>
      dsimp only at h
      split at h
      · cases h
        exact .writes registration fd _ rfl
      · cases h
        exact .fails registration fd rfl
  | isFile caller =>
      dsimp only at h
      split at h
      · cases h
        exact .goes _ trivial
      · cases h
        exact effect_afterRead ..
  | readText caller =>
      dsimp only at h
      split at h
      · cases h
        exact effect_afterRead ..
      · split at h
        · cases h
          exact effect_afterRead ..
        · cases h
          exact .goes _ trivial
        · split at h
          · cases h
            exact effect_afterRead ..
          · cases h
            exact .goes _ trivial
  | checkAlive caller info =>
      dsimp only at h
      split at h <;> cases h <;> exact .goes _ trivial
  | checkCmdline caller info =>
      dsimp only at h
      split at h
      · cases h
        exact effect_afterRead ..
      · cases h
        exact .goes _ trivial
  | clearStale caller =>
      cases h
      obtain ⟨pc, heq, hpc⟩ := afterRead_goto ⟨pid, .clearStale caller, fd, holding⟩ caller none
      rw [heq]
      exact .removes pc hpc rfl
  | checkExisting registration existing =>
      dsimp only at h
      split at h <;> cases h <;> exact .goes _ trivial
  | unlinkExisting registration =>
      cases h
      exact .removes _ trivial rfl
  | terminate force info =>
      dsimp only at h
      split at h
      · cases h
        exact .goes _ trivial
      · cases h
        cases choice with
        | true => exact .goes _ trivial
        | false => exact .goes _ trivial
  | awaitExit force info =>
      dsimp only at h
      split at h
      · cases h
        exact .goes _ trivial
      · cases h
        exact .goes _ trivial
      · split at h
        · cases h
          exact .goes (.awaitExit force info) trivial
        · cases h
          cases force with
          | true => exact .goes _ trivial
          | false => exact .goes _ trivial
  | kill info =>
      dsimp only at h
      split at h
      · cases h
        exact .goes _ trivial
      · cases h
        cases choice with
        | true => exact .goes _ trivial
        | false => exact .goes _ trivial
  | awaitKilled info =>
      dsimp only at h
      split at h
      · cases h
        exact .goes _ trivial
      · cases h
        exact .goes _ trivial
      · cases h
        cases choice with
        | true => exact .goes (.awaitKilled info) trivial
        | false => exact .goes _ trivial
  | clearStopped =>
      cases h
      exact .removes _ trivial rfl
  | clear =>
      cases h
      exact .removes _ trivial rfl
  | leaveSession =>
      cases h
      exact .leaves rfl

variable {Proc : Type}

/-- The lock file that a live process has created, until it gives it up. -/
def fdOf (s : State Proc) (p : Proc) : Option Nat := (s.live p).bind Process.fd

def Holds (s : State Proc) (p : Proc) : Prop := (s.live p).any Process.holding = true

/-- No lock file that a live process has created is removed, except by the end
of a session. -/
def Respectful (s : State Proc) : Action Proc → Prop
  | .operate p _ => (s.live p).any (fun me => unlinks me.pc) = true →
      ∀ q, fdOf s q ≠ none → fdOf s q ≠ s.files.entry
  | _ => True

def Settled (me : Process) : Prop :=
  (me.holding = true → me.fd ≠ none) ∧ match me.pc with
    | .write _ fd => me.fd = some fd ∧ me.holding = false
    | .leaveSession => me.holding = true
    | _ => True

structure Inv (s : State Proc) : Prop where
  current : ∀ p i, fdOf s p = some i → s.files.entry = some i
  unique : ∀ p q, fdOf s p ≠ none → fdOf s q ≠ none → p = q
  settled : ∀ p me, s.live p = some me → Settled me

theorem settled_goto {me : Process} {pc : Pc} (h : Settled me) (hpc : Plain pc) :
    Settled (me.goto pc) := by
  refine ⟨h.1, ?_⟩
  cases pc with
  | write | leaveSession => exact absurd hpc id
  | _ => trivial

theorem Inv.holder_eq {s : State Proc} (h : Inv s) {p q : Proc} (hp : Holds s p) (hq : Holds s q) :
    p = q := by
  obtain ⟨me, hme, hholds⟩ := Option.any_eq_true _ _ |>.mp hp
  obtain ⟨you, hyou, hyours⟩ := Option.any_eq_true _ _ |>.mp hq
  refine h.unique p q ?_ ?_
  · rw [fdOf, hme]
    exact (h.settled p me hme).1 hholds
  · rw [fdOf, hyou]
    exact (h.settled q you hyou).1 hyours

section

variable {s : State Proc} {p : Proc} {me : Process}

theorem Inv.alone {i : Nat} (h : Inv s) (hp : s.live p = some me) (hi : me.fd = some i) :
    s.files.entry = some i ∧ ∀ q, q ≠ p → fdOf s q = none := by
  have hfd : fdOf s p = some i := by rw [fdOf, hp, Option.bind_some, hi]
  refine ⟨h.current p i hfd, ?_⟩
  intro q hq
  by_contra hne
  exact hq (h.unique q p hne (by simp [hfd]))

theorem Inv.nobody (h : Inv s) (hfree : s.files.entry = none) (q : Proc) : fdOf s q = none := by
  cases hq : fdOf s q with
  | none => rfl
  | some i =>
      have hentry := h.current q i hq
      rw [hfree] at hentry
      cases hentry

theorem Inv.nobody_of_respectful {choice : Bool} (h : Inv s)
    (hC : Respectful s (.operate p choice)) (hp : s.live p = some me)
    (hun : unlinks me.pc = true) (q : Proc) : fdOf s q = none := by
  have hleft := hC (by rw [hp]; exact hun)
  cases hq : fdOf s q with
  | none => rfl
  | some i => exact absurd (hq.trans (h.current q i hq).symm) (hleft q (by simp [hq]))

end

variable [DecidableEq Proc]

theorem live_put_self (s : State Proc) (p : Proc) (me : Option Process) :
    (s.put p me).live p = me := Function.update_self ..

theorem live_put_of_ne {s : State Proc} {p q : Proc} (me : Option Process) (h : q ≠ p) :
    (s.put p me).live q = s.live q := Function.update_of_ne h ..

theorem fdOf_put_self (s : State Proc) (p : Proc) (me : Option Process) :
    fdOf (s.put p me) p = me.bind Process.fd := by rw [fdOf, live_put_self]

theorem fdOf_put_of_ne {s : State Proc} {p q : Proc} (me : Option Process) (h : q ≠ p) :
    fdOf (s.put p me) q = fdOf s q := by rw [fdOf, live_put_of_ne me h, fdOf]

/-- What a step has to show when it moves one process: its lock file is the
one there is, and nobody else loses his. -/
theorem Inv.move {s : State Proc} {files : Files} {pids : Int → Option (Occupant Proc)} {p : Proc}
    {me : Option Process} (h : Inv s)
    (hother : ∀ q, q ≠ p → ∀ i, fdOf s q = some i → files.entry = some i)
    (hself : ∀ i, me.bind Process.fd = some i → files.entry = some i ∧ ∀ q, q ≠ p → fdOf s q = none)
    (hsettled : ∀ you, me = some you → Settled you) :
    Inv (State.put { s with files := files, pids := pids } p me) := by
  set t : State Proc := { s with files := files, pids := pids } with ht
  have hfd : ∀ q, q ≠ p → fdOf (t.put p me) q = fdOf s q := fun q hq => fdOf_put_of_ne me hq
  have halone : fdOf (t.put p me) p ≠ none → ∀ q, q ≠ p → fdOf (t.put p me) q = none := by
    intro hp q hq
    rw [fdOf_put_self] at hp
    obtain ⟨i, hi⟩ := Option.ne_none_iff_exists'.mp hp
    rw [hfd q hq]
    exact (hself i hi).2 q hq
  refine ⟨?_, ?_, ?_⟩
  · intro q i hq
    by_cases hqp : q = p
    · rw [hqp, fdOf_put_self] at hq
      exact (hself i hq).1
    · rw [hfd q hqp] at hq
      exact hother q hqp i hq
  · intro q r hq hr
    by_cases hqp : q = p
    · by_contra hne
      have hrp : r ≠ p := fun he => hne (hqp.trans he.symm)
      exact hr (halone (hqp ▸ hq) r hrp)
    · by_cases hrp : r = p
      · exact absurd (halone (hrp ▸ hr) q hqp) hq
      · rw [hfd q hqp] at hq
        rw [hfd r hrp] at hr
        exact h.unique q r hq hr
  · intro q you hq
    by_cases hqp : q = p
    · rw [hqp, live_put_self] at hq
      exact hsettled you hq
    · rw [live_put_of_ne me hqp] at hq
      exact h.settled q you hq

section step

variable {s t : State Proc} {p : Proc} {me : Process}

theorem inv_operate {choice : Bool} {g : Files} {you : Process} (h : Inv s)
    (hC : Respectful s (.operate p choice)) (hp : s.live p = some me)
    (heffect : Effect s.files me g you) : Inv (State.put { s with files := g } p (some you)) := by
  have hsettled := h.settled p me hp
  cases heffect with
  | goes pc hpc =>
      refine h.move (fun q _ => h.current q) (fun i hi => h.alone hp hi) ?_
      rintro you ⟨⟩
      exact settled_goto hsettled hpc
  | creates registration hfree =>
      refine h.move ?_ ?_ ?_
      · intro q _ i hq
        rw [h.nobody hfree q] at hq
        cases hq
      · rintro i ⟨⟩
        exact ⟨rfl, fun q _ => h.nobody hfree q⟩
      · rintro you ⟨⟩
        refine ⟨fun _ => Option.some_ne_none _, rfl, ?_⟩
        have hfd : me.fd = none := by
          cases hfd : me.fd with
          | none => rfl
          | some i =>
              have hentry := (h.alone hp hfd).1
              rw [hfree] at hentry
              cases hentry
        by_contra hholds
        exact hsettled.1 (by simpa using hholds) hfd
  | writes registration fd content hpc =>
      refine h.move (fun q _ => h.current q) (fun i hi => h.alone hp hi) ?_
      rintro you ⟨⟩
      have hwrite := hsettled.2
      rw [hpc] at hwrite
      exact ⟨fun _ => by simp [hwrite.1], trivial⟩
  | fails registration fd hpc =>
      refine h.move (fun q _ => h.current q) ?_ ?_
      · rintro i ⟨⟩
      · rintro you ⟨⟩
        have hwrite := hsettled.2
        rw [hpc] at hwrite
        exact ⟨by simp [hwrite.2], trivial⟩
  | removes pc hpc hun =>
      have hnone := h.nobody_of_respectful hC hp hun
      refine h.move ?_ ?_ ?_
      · intro q _ i hq
        rw [hnone q] at hq
        cases hq
      · intro i hi
        have hfd : fdOf s p = some i := by
          rw [fdOf, hp]
          exact hi
        rw [hnone p] at hfd
        cases hfd
      · rintro you ⟨⟩
        exact settled_goto hsettled hpc
  | leaves hpc =>
      have hholds := hsettled.2
      rw [hpc] at hholds
      obtain ⟨i, hi⟩ := Option.ne_none_iff_exists'.mp (hsettled.1 hholds)
      refine h.move ?_ ?_ ?_
      · intro q hq j hj
        rw [(h.alone hp hi).2 q hq] at hj
        cases hj
      · rintro i ⟨⟩
      · rintro you ⟨⟩
        exact ⟨nofun, trivial⟩

variable {conv : Conversions}

theorem step_call {c : Call} (h : step conv s (.call p c) = some t) :
    ∃ me, s.live p = some me ∧ (c = .leaveSession → me.holding = true) ∧
      t = s.put p (some (me.goto c.entry)) := by
  rw [step] at h
  cases hp : s.live p with
  | none =>
      rw [hp] at h
      cases h
  | some me =>
      obtain ⟨pid, pc, fd, holding⟩ := me
      rw [hp] at h
      cases pc with
      | idle =>
          cases c with
          | leaveSession =>
              cases holding with
              | true =>
                  cases h
                  exact ⟨_, rfl, fun _ => rfl, rfl⟩
              | false => cases h
          | register | read | stop | clear =>
              cases h
              exact ⟨_, rfl, by simp, rfl⟩
      | _ => cases h

omit [DecidableEq Proc] in
theorem start_inv (lock : Option ByteArray) (processes : Processes) :
    Inv (start lock processes : State Proc) := by
  refine ⟨?_, ?_, ?_⟩
  · rintro p i ⟨⟩
  · intro p q hp
    exact absurd rfl hp
  · rintro p me ⟨⟩

theorem step_inv {a : Action Proc} (h : Inv s) (hC : Respectful s a)
    (hstep : step conv s a = some t) : Inv t := by
  cases a with
  | start p pid cmdline =>
      rw [step] at hstep
      split at hstep
      · cases hstep
        refine h.move (fun q _ => h.current q) ?_ ?_
        · rintro i ⟨⟩
        · rintro you ⟨⟩
          exact ⟨by simp, trivial⟩
      · cases hstep
  | exit p =>
      rw [step] at hstep
      split at hstep
      · cases hstep
        refine h.move (fun q _ => h.current q) ?_ ?_
        · rintro i ⟨⟩
        · rintro you ⟨⟩
      · cases hstep
  | appear pid cmdline =>
      rw [step] at hstep
      split at hstep
      · cases hstep
        exact ⟨h.current, h.unique, h.settled⟩
      · cases hstep
  | vanish pid =>
      rw [step] at hstep
      split at hstep
      · cases hstep
        exact ⟨h.current, h.unique, h.settled⟩
      · cases hstep
  | call p c =>
      obtain ⟨me, hp, hleave, rfl⟩ := step_call hstep
      refine h.move (fun q _ => h.current q) (fun i hi => h.alone hp hi) ?_
      rintro you ⟨⟩
      refine ⟨(h.settled p me hp).1, ?_⟩
      cases c with
      | leaveSession => exact hleave rfl
      | _ => trivial
  | operate p choice =>
      rw [step] at hstep
      cases hp : s.live p with
      | none =>
          rw [hp] at hstep
          cases hstep
      | some me =>
          rw [hp] at hstep
          obtain ⟨⟨g, you⟩, hop, rfl⟩ := Option.map_eq_some_iff.mp hstep
          exact inv_operate h hC hp (effect_of_operate hop)

end step

/-- From any lock file and any other processes: in a run that removes no lock
file of a live process, except at the end of its session, at most one live
process holds the lock. -/
theorem one_holder {conv : Conversions} {lock : Option ByteArray} {processes : Processes}
    {actions : List (Action Proc)} {s : State Proc}
    (hrun : run (step conv) (start lock processes) actions = some s)
    (hC : Along (step conv) Respectful (start lock processes) actions) {p q : Proc}
    (hp : Holds s p) (hq : Holds s q) : p = q := by
  have hinv : Inv s := along_invariant (fun _ _ _ => step_inv) (start_inv lock processes) hC hrun
  exact hinv.holder_eq hp hq

instance decidableRespectful [Fintype Proc] (s : State Proc) :
    (a : Action Proc) → Decidable (Respectful s a)
  | .operate _ _ => inferInstanceAs (Decidable (_ = true → ∀ q, fdOf s q ≠ none → fdOf s q ≠ _))
  | .start _ _ _ | .exit _ | .appear _ _ | .vanish _ | .call _ _ => isTrue trivial

instance decidableHolds (s : State Proc) (p : Proc) : Decidable (Holds s p) :=
  inferInstanceAs (Decidable (_ = true))

/-- Two campaigns and the lock of a run that has died. -/
def twoCampaigns : State Bool := start (some "\x7b\"pid\": 7\x7d".toUTF8) (fun _ => none)

def startsBoth : List (Action Bool) :=
  [.start false 100 (some "bs full"), .start true 200 (some "bs full")]

def register (p : Bool) : Action Bool := .call p (.register fullRun)

/-- The second campaign begins when the session of the first has ended. -/
def oneAfterTheOther : List (Action Bool) :=
  startsBoth ++ register false :: List.replicate 7 (.operate false true) ++
    .call false .leaveSession :: .operate false true ::
    register true :: List.replicate 2 (.operate true true)

theorem oneAfterTheOther_holder : ∃ s,
    run (step plainConversions) twoCampaigns oneAfterTheOther = some s ∧ Holds s true ∧
      ∀ p, Holds s p → p = true := by
  have hend : (run (step plainConversions) twoCampaigns oneAfterTheOther).any
      (fun s => decide (Holds s true)) = true := by decide +kernel
  have halong : Along (step plainConversions) Respectful twoCampaigns oneAfterTheOther := by
    decide +kernel
  obtain ⟨s, hrun, hholds⟩ := (Option.any_eq_true _ _).mp hend
  have htrue : Holds s true := of_decide_eq_true hholds
  exact ⟨s, hrun, htrue, fun p hp => one_holder hrun halong hp htrue⟩

/-- Both read the old lock before either removes it. -/
def bothAtOnce : List (Action Bool) :=
  startsBoth ++ [register false, register true] ++
    List.replicate 4 (.operate false true) ++ List.replicate 4 (.operate true true) ++
    List.replicate 3 (.operate false true) ++ List.replicate 3 (.operate true true)

theorem bothAtOnce_hold : ∃ s,
    run (step plainConversions) twoCampaigns bothAtOnce = some s ∧ Holds s false ∧ Holds s true := by
  have hend : (run (step plainConversions) twoCampaigns bothAtOnce).any
      (fun s => decide (Holds s false ∧ Holds s true)) = true := by decide +kernel
  obtain ⟨s, hrun, hholds⟩ := (Option.any_eq_true _ _).mp hend
  exact ⟨s, hrun, of_decide_eq_true hholds⟩

end Blockchecks.RunLockRuns
