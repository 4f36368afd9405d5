import Blockchecks.RunControl
import Blockchecks.Runs
import Mathlib.Logic.Function.Basic

namespace Blockchecks.RunLock

open Runs RunControl

/-- RUN_LOCK_FILE as a directory entry, and the contents of all files it has
ever named: a descriptor still writes to a file that was unlinked. -/
structure Files where
  entry : Option Nat
  contents : Nat → ByteArray
  next : Nat

namespace Files

def lock (f : Files) : Option ByteArray := f.entry.map f.contents

def unlink (f : Files) : Files := { f with entry := none }

def create (f : Files) : Files where
  entry := some f.next
  contents := Function.update f.contents f.next ByteArray.empty
  next := f.next + 1

def write (f : Files) (fd : Nat) (content : ByteArray) : Files :=
  { f with contents := Function.update f.contents fd content }

end Files

/-- Who called read_active_run. -/
inductive Caller where
  | alone
  | register (registration : Registration)
  | stop (force : Bool)

/-- Where a process is in one of the calls. -/
inductive Pc where
  | idle
  | create (registration : Registration) (last : Bool)
  | write (registration : Registration) (fd : Nat)
  | isFile (caller : Caller)
  | readText (caller : Caller)
  | checkAlive (caller : Caller) (info : ActiveRunInfo)
  | checkCmdline (caller : Caller) (info : ActiveRunInfo)
  | clearStale (caller : Caller)
  | checkExisting (registration : Registration) (existing : ActiveRunInfo)
  | unlinkExisting (registration : Registration)
  | terminate (force : Bool) (info : ActiveRunInfo)
  | awaitExit (force : Bool) (info : ActiveRunInfo)
  | kill (info : ActiveRunInfo)
  | awaitKilled (info : ActiveRunInfo)
  | clearStopped
  | clear
  | leaveSession

/-- A live process: its pid, where it is, the lock file of its registration
until that fails or its session ends, and whether it is a holder. -/
structure Process where
  pid : Int
  pc : Pc := .idle
  fd : Option Nat := none
  holding : Bool := false

namespace Process

def goto (me : Process) (pc : Pc) : Process := { me with pc := pc }

/-- read_active_run returns to its caller. -/
def afterRead (me : Process) (caller : Caller) (info : Option ActiveRunInfo) : Process :=
  match caller, info with
  | .alone, _ => me.goto .idle
  | .register registration, none => me.goto (.create registration true)
  | .register registration, some existing =>
      if existing.pid = me.pid then me.goto (.unlinkExisting registration)
      else me.goto (.checkExisting registration existing)
  | .stop _, none => me.goto .idle
  | .stop force, some info =>
      if info.pid = me.pid then me.goto .idle else me.goto (.terminate force info)

end Process

/-- One operation of a process. The choice is whether a write or a signal goes
through, and whether a deadline still lies ahead. -/
def operate (conv : Conversions) (processes : Processes) (choice : Bool) (f : Files) (me : Process) :
    Option (Files × Process) :=
  match me.pc with
  | .idle => none
  | .create registration last => match f.entry with
      | some _ => some (f, me.goto (if last then .idle else .isFile (.register registration)))
      | none => some (f.create, { me with pc := .write registration f.next, fd := some f.next })
  | .write registration fd =>
      if choice then
        some (f.write fd (registration.lockText me.pid), { me with pc := .idle, holding := true })
      else some (f, { me with pc := .idle, fd := none })
  | .isFile caller => match f.entry with
      | some _ => some (f, me.goto (.readText caller))
      | none => some (f, me.afterRead caller none)
  | .readText caller => match f.lock with
      | none => some (f, me.afterRead caller none)
      | some content => match parseLock conv content with
          | .error .invalid => some (f, me.afterRead caller none)
          | .error .overflow => some (f, me.goto .idle)
          | .ok info =>
              if info.pid = me.pid then some (f, me.afterRead caller (some info))
              else some (f, me.goto (.checkAlive caller info))
  | .checkAlive caller info => match isPidAlive processes info.pid with
      | .error _ => some (f, me.goto .idle)
      | .ok true => some (f, me.goto (.checkCmdline caller info))
      | .ok false => some (f, me.goto (.clearStale caller))
  | .checkCmdline caller info =>
      if cmdlineLooksLikeCampaign processes info.pid then some (f, me.afterRead caller (some info))
      else some (f, me.goto (.clearStale caller))
  | .clearStale caller => some (f.unlink, me.afterRead caller none)
  | .checkExisting registration existing => match isPidAlive processes existing.pid with
      | .error _ => some (f, me.goto .idle)
      | .ok true => some (f, me.goto .idle)
      | .ok false => some (f, me.goto (.unlinkExisting registration))
  | .unlinkExisting registration => some (f.unlink, me.goto (.create registration true))
  | .terminate force info => match processes info.pid with
      | none => some (f, me.goto .clearStopped)
      | some _ => some (f, me.goto (if choice then .awaitExit force info else .idle))
  | .awaitExit force info => match isPidAlive processes info.pid with
      | .error _ => some (f, me.goto .idle)
      | .ok false => some (f, me.goto .clearStopped)
      | .ok true =>
          if choice then some (f, me)
          else some (f, me.goto (if force then .kill info else .idle))
  | .kill info => match processes info.pid with
      | none => some (f, me.goto .clearStopped)
      | some _ => some (f, me.goto (if choice then .awaitKilled info else .idle))
  | .awaitKilled info => match isPidAlive processes info.pid with
      | .error _ => some (f, me.goto .idle)
      | .ok false => some (f, me.goto .clearStopped)
      | .ok true => some (f, if choice then me else me.goto .idle)
  | .clearStopped => some (f.unlink, me.goto .idle)
  | .clear => some (f.unlink, me.goto .idle)
  | .leaveSession => some (f.unlink, { me with pc := .idle, fd := none, holding := false })

/-- Who has a pid: a campaign process of the run, or some other process. -/
structure Occupant (Proc : Type) where
  cmdline : Option String
  process : Option Proc

structure State (Proc : Type) where
  files : Files
  pids : Int → Option (Occupant Proc)
  live : Proc → Option Process

namespace State

variable {Proc : Type}

def processes (s : State Proc) : Processes := fun pid => (s.pids pid).map Occupant.cmdline

def occupy (s : State Proc) (pid : Int) (occupant : Option (Occupant Proc)) : State Proc :=
  { s with pids := Function.update s.pids pid occupant }

variable [DecidableEq Proc]

def put (s : State Proc) (p : Proc) (me : Option Process) : State Proc :=
  { s with live := Function.update s.live p me }

end State

inductive Call where
  | register (registration : Registration)
  | read
  | stop (force : Bool)
  | clear
  | leaveSession

def Call.entry : Call → Pc
  | .register registration => .create registration false
  | .read => .isFile .alone
  | .stop force => .isFile (.stop force)
  | .clear => .clear
  | .leaveSession => .leaveSession

/-- Processes start and die at any time, of a signal too. A session is left by
a process that has entered one. -/
inductive Action (Proc : Type) where
  | start (p : Proc) (pid : Int) (cmdline : Option String)
  | exit (p : Proc)
  | appear (pid : Int) (cmdline : Option String)
  | vanish (pid : Int)
  | call (p : Proc) (c : Call)
  | operate (p : Proc) (choice : Bool)

variable {Proc : Type} [DecidableEq Proc]

def step (conv : Conversions) (s : State Proc) : Action Proc → Option (State Proc)
  | .start p pid cmdline => match s.live p, s.pids pid with
      | none, none => some ((s.occupy pid (some ⟨cmdline, some p⟩)).put p (some { pid := pid }))
      | _, _ => none
  | .exit p => match s.live p with
      | some me => some ((s.occupy me.pid none).put p none)
      | none => none
  | .appear pid cmdline => match s.pids pid with
      | none => some (s.occupy pid (some ⟨cmdline, none⟩))
      | some _ => none
  | .vanish pid => match s.pids pid with
      | some ⟨_, none⟩ => some (s.occupy pid none)
      | _ => none
  | .call p c => match s.live p with
      | some me => match me.pc, c, me.holding with
          | .idle, .leaveSession, false => none
          | .idle, c, _ => some (s.put p (some (me.goto c.entry)))
          | _, _, _ => none
      | none => none
  | .operate p choice => match s.live p with
      | some me => (operate conv s.processes choice s.files me).map (fun next =>
          { s with files := next.1 }.put p (some next.2))
      | none => none

/-- Any lock file, or none, and any processes that are no part of the run. -/
def start (lock : Option ByteArray) (processes : Processes) : State Proc where
  files := ⟨lock.map (fun _ => 0), fun _ => lock.getD ByteArray.empty, 1⟩
  pids := fun pid => (processes pid).map (fun cmdline => ⟨cmdline, none⟩)
  live := fun _ => none

end Blockchecks.RunLock
