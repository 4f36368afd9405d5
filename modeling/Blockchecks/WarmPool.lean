import Blockchecks.Runs
import Mathlib.Data.List.Nodup
import Mathlib.Logic.Function.Basic

namespace Blockchecks.WarmPool

open Runs

/-- Who calls ProbeService.start. -/
inductive Caller where
  | start
  | probe
  | findStrategy
  deriving DecidableEq

/-- A probe reads the runner of the service for every test, find_strategy keeps
the one it has read before it waits for the lock. -/
inductive Work where
  | probe
  | findStrategy (runner : Option Nat)
  deriving DecidableEq

/-- Where a task is: outside, in the await of runner.start, building the queue
of find_strategy, at the lock, or under it. -/
inductive Pc where
  | idle
  | awaitStart (caller : Caller)
  | building
  | waiting (work : Work)
  | probing (work : Work)
  deriving DecidableEq

def afterStart : Caller → Pc
  | .start => .idle
  | .probe => .waiting .probe
  | .findStrategy => .building

/-- The service, with the runners whose start has been called (the last one
first), those that have probed, and those whose stop has been called. Runners
are numbered in the order in which they were made. -/
structure State (Task : Type) where
  runner : Option Nat := none
  started : Bool := false
  holder : Option Task := none
  pc : Task → Pc := fun _ => .idle
  created : Nat := 0
  launched : List Nat := []
  used : List Nat := []
  stopped : List Nat := []

/-- The service as it was constructed. -/
def cold {Task : Type} : State Task := {}

variable {Task : Type}

/-- The body of start up to the await. -/
def State.launch (s : State Task) : State Task :=
  { s with runner := some s.created, created := s.created + 1, launched := s.created :: s.launched }

def State.stop (s : State Task) : State Task :=
  { s with stopped := s.stopped ++ s.runner.toList, started := false, runner := none }

def Work.runner (s : State Task) : Work → Option Nat
  | .probe => s.runner
  | .findStrategy runner => runner

/-- What a task does between two awaits. A request that is refused as busy, has
no items or does not want to go on leaves. -/
inductive Action (Task : Type) where
  | enter (task : Task) (caller : Caller)
  | startReturns (task : Task)
  | build (task : Task)
  | acquire (task : Task)
  | test (task : Task)
  | leave (task : Task)

variable [DecidableEq Task]

def State.goto (s : State Task) (task : Task) (pc : Pc) : State Task :=
  { s with pc := Function.update s.pc task pc }

def step (s : State Task) : Action Task → Option (State Task)
  | .enter task caller =>
      if s.pc task ≠ .idle then none
      else if s.started then some (s.goto task (afterStart caller))
      else some (s.launch.goto task (.awaitStart caller))
  | .startReturns task => match s.pc task with
      | .awaitStart caller => some ({ s with started := true }.goto task (afterStart caller))
      | _ => none
  | .build task => match s.pc task with
      | .building => some (s.goto task (.waiting (.findStrategy s.runner)))
      | _ => none
  | .acquire task => match s.pc task, s.holder with
      | .waiting work, none => some ({ s with holder := some task }.goto task (.probing work))
      | _, _ => none
  | .test task => match s.pc task with
      | .probing work => (work.runner s).map (fun runner => { s with used := runner :: s.used })
      | _ => none
  | .leave task => match s.pc task with
      | .idle => none
      | _ => some ({ s with holder := if s.holder = some task then none else s.holder }.goto task .idle)

section simp

variable (s : State Task) (task : Task) (pc : Pc)

@[simp] theorem runner_goto : (s.goto task pc).runner = s.runner := rfl

@[simp] theorem started_goto : (s.goto task pc).started = s.started := rfl

@[simp] theorem pc_goto : (s.goto task pc).pc = Function.update s.pc task pc := rfl

end simp

end Blockchecks.WarmPool
