import Blockchecks.RunLock
import Mathlib.Logic.Relation

namespace Blockchecks.RunLockAlone

open Runs RunControl RunLock

section process

variable (conv : Conversions) (processes : Processes)

/-- A process that works without interruption and whose operations succeed. -/
def Alone : Files × Process → Files × Process → Prop :=
  Relation.ReflTransGen (fun x y => operate conv processes true x.1 x.2 = some y)

variable {conv processes}

theorem alone_step {f g : Files} {me you : Process} {z : Files × Process}
    (h : operate conv processes true f me = some (g, you)) (hrest : Alone conv processes (g, you) z) :
    Alone conv processes (f, me) z := Relation.ReflTransGen.head h hrest

theorem alone_last {f g : Files} {me you : Process}
    (h : operate conv processes true f me = some (g, you)) :
    Alone conv processes (f, me) (g, you) := Relation.ReflTransGen.single h

theorem goto_afterRead (me : Process) (pc : Pc) (caller : Caller) (info : Option ActiveRunInfo) :
    (me.goto pc).afterRead caller info = me.afterRead caller info := by
  cases caller <;> cases info <;> rfl

def afterResult (me : Process) (caller : Caller) : Except Error (Option ActiveRunInfo) → Process
  | .ok info => me.afterRead caller info
  | .error _ => me.goto .idle

theorem lock_of_none {f : Files} (h : f.entry = none) : f.lock = none := by
  rw [Files.lock, h, Option.map_none]

theorem lock_unlink (f : Files) : f.unlink.lock = none := rfl

variable {f : Files} {me : Process} {caller : Caller} {info : ActiveRunInfo}

theorem operate_isFile {i : Nat} (h : f.entry = some i) :
    operate conv processes true f (me.goto (.isFile caller)) =
      some (f, me.goto (.readText caller)) := by
  simp only [operate, Process.goto, h]

/-- From the check of the pid on. -/
theorem check_alone (processes : Processes) (caller : Caller) (content : ByteArray)
    (hlock : f.lock = some content)
    (hinfo : parseLock conv content = .ok info) (hpid : info.pid ≠ me.pid) :
    ∃ g, g.lock = (readActiveRun conv processes me.pid f.lock).2 ∧
      Alone conv processes (f, me.goto (.checkAlive caller info))
        (g, afterResult me caller (readActiveRun conv processes me.pid f.lock).1) := by
  rw [hlock, readActiveRun, hinfo]
  dsimp only
  rw [if_neg hpid]
  cases halive : isPidAlive processes info.pid with
  | error error =>
      refine ⟨f, hlock, alone_last ?_⟩
      simp only [operate, Process.goto, halive, afterResult]
  | ok alive =>
      cases alive with
      | false =>
          have hstale : operate conv processes true f (me.goto (.checkAlive caller info)) =
              some (f, me.goto (.clearStale caller)) := by
            simp only [operate, Process.goto, halive]
          refine ⟨f.unlink, lock_unlink f, alone_step hstale (alone_last ?_)⟩
          exact congrArg (fun you => some (f.unlink, you)) (goto_afterRead me _ caller none)
      | true =>
          have hcheck : operate conv processes true f (me.goto (.checkAlive caller info)) =
              some (f, me.goto (.checkCmdline caller info)) := by
            simp only [operate, Process.goto, halive]
          cases hcmdline : cmdlineLooksLikeCampaign processes info.pid with
          | true =>
              refine ⟨f, hlock, alone_step hcheck (alone_last ?_)⟩
              simp only [operate, Process.goto, hcmdline, if_true]
              exact congrArg (fun you => some (f, you)) (goto_afterRead me _ caller (some info))
          | false =>
              have hstale : operate conv processes true f (me.goto (.checkCmdline caller info)) =
                  some (f, me.goto (.clearStale caller)) := by
                simp [operate, Process.goto, hcmdline]
              refine ⟨f.unlink, lock_unlink f, alone_step hcheck (alone_step hstale (alone_last ?_))⟩
              exact congrArg (fun you => some (f.unlink, you)) (goto_afterRead me _ caller none)

/-- The reader that is not disturbed does what read_active_run does at once. -/
theorem read_alone (conv : Conversions) (processes : Processes) (f : Files) (me : Process)
    (caller : Caller) :
    ∃ g, g.lock = (readActiveRun conv processes me.pid f.lock).2 ∧
      Alone conv processes (f, me.goto (.isFile caller))
        (g, afterResult me caller (readActiveRun conv processes me.pid f.lock).1) := by
  cases hentry : f.entry with
  | none =>
      rw [lock_of_none hentry]
      refine ⟨f, lock_of_none hentry, alone_last ?_⟩
      rw [operate]
      simp only [Process.goto, hentry]
      exact congrArg (fun you => some (f, you)) (goto_afterRead me _ caller none)
  | some i =>
      have hlock : f.lock = some (f.contents i) := by rw [Files.lock, hentry, Option.map_some]
      cases hparse : parseLock conv (f.contents i) with
      | error error =>
          rw [hlock, readActiveRun, hparse]
          cases error with
          | invalid =>
              refine ⟨f, hlock, alone_step (operate_isFile hentry) (alone_last ?_)⟩
              simp only [operate, Process.goto, hlock, hparse]
              exact congrArg (fun you => some (f, you)) (goto_afterRead me _ caller none)
          | overflow =>
              refine ⟨f, hlock, alone_step (operate_isFile hentry) (alone_last ?_)⟩
              simp only [operate, Process.goto, hlock, hparse, afterResult]
      | ok info =>
          by_cases hpid : info.pid = me.pid
          · rw [hlock, readActiveRun, hparse]
            dsimp only
            rw [if_pos hpid]
            refine ⟨f, hlock, alone_step (operate_isFile hentry) (alone_last ?_)⟩
            simp only [operate, Process.goto, hlock, hparse, hpid, if_true]
            exact congrArg (fun you => some (f, you)) (goto_afterRead me _ caller (some info))
          · obtain ⟨g, hg, hrest⟩ := check_alone processes caller (f.contents i)
              hlock hparse hpid
            refine ⟨g, hg, alone_step (operate_isFile hentry) (alone_step ?_ hrest)⟩
            simp only [operate, Process.goto, hlock, hparse, hpid, if_false]

/-- How the process is left by a registration. -/
structure Registered (me : Process) (outcome : Outcome) (you : Process) : Prop where
  idle : you.pc = .idle
  pid : you.pid = me.pid
  holding : you.holding = true ↔ outcome = .returned ∨ me.holding = true

theorem registered_idle {outcome : Outcome} (h : outcome ≠ .returned) :
    Registered me outcome (me.goto .idle) :=
  ⟨rfl, rfl, fun hh => Or.inr hh, fun hh => hh.resolve_left h⟩

variable {registration : Registration} {last : Bool}

/-- A creation that finds no file is followed by the write. -/
theorem create_alone (hfree : f.entry = none) :
    ∃ g you, g.lock = some (registration.lockText me.pid) ∧
      Alone conv processes (f, me.goto (.create registration last)) (g, you) ∧
      Registered me .returned you := by
  refine ⟨f.create.write f.next (registration.lockText me.pid),
    { me with pc := .idle, fd := some f.next, holding := true }, ?_, ?_, rfl, rfl, by simp⟩
  · rw [Files.lock]
    exact congrArg some (Function.update_self ..)
  · have hcreate : operate conv processes true f (me.goto (.create registration last)) =
        some (f.create, { me with pc := .write registration f.next, fd := some f.next }) := by
      simp only [operate, Process.goto, hfree]
    refine alone_step hcreate (alone_last ?_)
    simp only [operate, if_true]

theorem last_alone (conv : Conversions) (processes : Processes) (f : Files) (me : Process)
    (registration : Registration) :
    ∃ g you, g.lock = (writeLast me.pid registration f.lock).2 ∧
      Alone conv processes (f, me.goto (.create registration true)) (g, you) ∧
      Registered me (writeLast me.pid registration f.lock).1 you := by
  cases hentry : f.entry with
  | none =>
      rw [lock_of_none hentry]
      exact create_alone hentry
  | some i =>
      have hlock : f.lock = some (f.contents i) := by rw [Files.lock, hentry, Option.map_some]
      rw [hlock]
      refine ⟨f, me.goto .idle, hlock, alone_last ?_, registered_idle (by simp [writeLast, writeRunLockExclusive])⟩
      simp only [operate, Process.goto, hentry, if_true]

theorem unlinked_alone (conv : Conversions) (processes : Processes) (f : Files) (me : Process)
    (registration : Registration) :
    ∃ g you, g.lock = (writeLast me.pid registration none).2 ∧
      Alone conv processes (f, me.goto (.unlinkExisting registration)) (g, you) ∧
      Registered me (writeLast me.pid registration none).1 you := by
  obtain ⟨g, you, hg, hrest, hyou⟩ :=
    last_alone conv processes f.unlink me registration
  exact ⟨g, you, hg, alone_step rfl hrest, hyou⟩

/-- The registration that is not disturbed does what register_active_run does
at once. -/
theorem register_alone (conv : Conversions) (processes : Processes) (f : Files) (me : Process)
    (registration : Registration) :
    ∃ g you, g.lock = (registerActiveRun conv processes me.pid registration f.lock).2 ∧
      Alone conv processes (f, me.goto (.create registration false)) (g, you) ∧
      Registered me (registerActiveRun conv processes me.pid registration f.lock).1 you := by
  cases hentry : f.entry with
  | none =>
      rw [lock_of_none hentry]
      exact create_alone hentry
  | some i =>
      have hlock : f.lock = some (f.contents i) := by rw [Files.lock, hentry, Option.map_some]
      have hcreate : operate conv processes true f (me.goto (.create registration false)) =
          some (f, me.goto (.isFile (.register registration))) := by
        simp only [operate, Process.goto, hentry]
        rfl
      obtain ⟨g, hg, hread⟩ := read_alone conv processes f me
        (.register registration)
      have hunwritten : writeRunLockExclusive me.pid registration f.lock = none := by
        rw [hlock, writeRunLockExclusive]
      rw [registerActiveRun, hunwritten]
      replace hread := alone_step hcreate hread
      generalize readActiveRun conv processes me.pid f.lock = read at hg hread ⊢
      obtain ⟨result, after⟩ := read
      dsimp only at hg hread ⊢
      cases result with
      | error error =>
          exact ⟨g, _, hg, hread, registered_idle (by simp)⟩
      | ok found =>
          cases found with
          | none =>
              obtain ⟨g', you, hg', hlast, hyou⟩ :=
                last_alone conv processes g me registration
              rw [hg] at hg' hyou
              exact ⟨g', you, hg', hread.trans hlast, hyou⟩
          | some existing =>
              dsimp only
              rw [afterResult, Process.afterRead] at hread
              by_cases hown : existing.pid = me.pid
              · rw [if_pos hown] at hread ⊢
                obtain ⟨g', you, hg', hrest, hyou⟩ :=
                  unlinked_alone conv processes g me registration
                exact ⟨g', you, hg', hread.trans hrest, hyou⟩
              · rw [if_neg hown] at hread ⊢
                cases halive : isPidAlive processes existing.pid with
                | error error =>
                    refine ⟨g, _, hg, hread.tail ?_, registered_idle (by simp)⟩
                    simp only [operate, Process.goto, halive]
                | ok alive =>
                    cases alive with
                    | true =>
                        refine ⟨g, _, hg, hread.tail ?_, registered_idle (by simp)⟩
                        simp only [operate, Process.goto, halive]
                    | false =>
                        obtain ⟨g', you, hg', hrest, hyou⟩ :=
                          unlinked_alone conv processes g me registration
                        refine ⟨g', you, hg', (hread.tail ?_).trans hrest, hyou⟩
                        simp only [operate, Process.goto, halive]

end process

section run

variable {Proc : Type} [DecidableEq Proc] {conv : Conversions}

def replace (s : State Proc) (p : Proc) (x : Files × Process) : State Proc :=
  { s with files := x.1 }.put p (some x.2)

theorem step_replace {s : State Proc} {p : Proc} {x y : Files × Process}
    (h : operate conv s.processes true x.1 x.2 = some y) :
    step conv (replace s p x) (.operate p true) = some (replace s p y) := by
  have hp : (replace s p x).live p = some x.2 := Function.update_self ..
  have hop : operate conv (replace s p x).processes true (replace s p x).files x.2 = some y := h
  rw [step, hp]
  dsimp only
  rw [hop, Option.map_some]
  simp only [replace, State.put, Function.update_idem]

/-- The steps of a process alone are steps of the system in which nobody else
moves. -/
theorem run_of_alone {s : State Proc} {p : Proc} {x y : Files × Process}
    (h : Alone conv s.processes x y) :
    ∃ n, run (step conv) (replace s p x) (List.replicate n (.operate p true)) =
      some (replace s p y) := by
  induction h using Relation.ReflTransGen.head_induction_on with
  | refl => exact ⟨0, rfl⟩
  | head hstep _ ih =>
      obtain ⟨n, hn⟩ := ih
      exact ⟨n + 1, run_cons_eq_some.mpr ⟨_, step_replace hstep, hn⟩⟩

/-- A registration during which nobody else moves ends as register_active_run
does, and leaves the lock that it leaves. -/
theorem register_run {s : State Proc} {p : Proc} {me : Process} (registration : Registration)
    (hp : s.live p = some me) (hidle : me.pc = .idle) :
    ∃ n t you, run (step conv) s (.call p (.register registration) ::
        List.replicate n (.operate p true)) = some t ∧
      t.files.lock = (registerActiveRun conv s.processes me.pid registration s.files.lock).2 ∧
      t.live p = some you ∧
      Registered me (registerActiveRun conv s.processes me.pid registration s.files.lock).1 you := by
  obtain ⟨g, you, hg, halone, hyou⟩ :=
    register_alone conv s.processes s.files me registration
  obtain ⟨n, hn⟩ := run_of_alone (s := s) (p := p) halone
  refine ⟨n, replace s p (g, you), you, run_cons_eq_some.mpr ⟨_, ?_, hn⟩, hg,
    Function.update_self .., hyou⟩
  obtain ⟨pid, pc, fd, holding⟩ := me
  obtain rfl : pc = .idle := hidle
  rw [step, hp]
  rfl

end run

end Blockchecks.RunLockAlone
