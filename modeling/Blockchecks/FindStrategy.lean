import Blockchecks.OrderedDict
import Blockchecks.Results
import Blockchecks.Runs
import Blockchecks.Taps
import Mathlib.Data.Fintype.Basic
import Mathlib.Data.List.Sort

namespace Blockchecks.FindStrategy

open OrderedDict Results Runs StrategyText Taps

structure Row where
  strategy : String
  success : Bool := true
  httpCode : Option Int
  latencyMs : ℚ
  bytesRead : Int
  failPhase : Option String
  rstInTtl : Option Int
  deriving DecidableEq

def tcpPassRow (r : TcpTestResult) : Row where
  strategy := r.item.strategy
  httpCode := some r.httpCode
  latencyMs := r.latencyMs
  bytesRead := r.contentLength
  failPhase := if r.failPhase = "" then none else some r.failPhase
  rstInTtl := some r.rstInTtl

/-- The row that a tapped mark_done appends. -/
def queuePassRow (item : StrategyItem) : Row where
  strategy := item.strategy
  httpCode := none
  latencyMs := 0
  bytesRead := 0
  failPhase := none
  rstInTtl := none

/-- A row of a sink, by what it was recorded from: a successful result of the
runner, or a job that the queue was told has passed on its domain. -/
inductive Entry where
  | probe (result : TcpTestResult)
  | job (item : StrategyItem) (domain : String)
  deriving DecidableEq

namespace Entry

def row : Entry → Row
  | .probe result => tcpPassRow result
  | .job item _ => queuePassRow item

def PassOn (domain : String) : Entry → Prop
  | .probe result => result.success = true ∧ result.domain = domain
  | .job _ probed => probed = domain

def answered (e : Entry) : Bool := e.row.httpCode.any (fun code => code ≠ 0)

end Entry

/-- One turn of the loop of _merge_top_strategies. -/
def mergeRow (best : Dict String Entry) (e : Entry) : Dict String Entry :=
  let key := e.row.strategy
  if key = "" then best
  else match best.get? key with
    | none => best.set key e
    | some prev =>
        if e.answered && !prev.answered then best.set key e
        else if e.row.latencyMs < prev.row.latencyMs then best.set key e
        else best

/-- The sort keeps rows of one latency in order. -/
def mergeTopStrategies (rows : List Entry) (limit : Nat := 20) : List Entry :=
  ((rows.foldl mergeRow Dict.empty).values.insertionSort
    (fun a b => a.row.latencyMs ≤ b.row.latencyMs)).take limit

/-- The methods of the runner that _tap_runner_passes wraps. -/
inductive Method where
  | testTcp
  | runProbeBatch
  | testTcpDomains
  deriving DecidableEq

/-- Where a request is in _handle_find_strategy: before the tap, at the lock,
under it, asleep after a timeout, or past the restore. -/
inductive Phase where
  | arrived
  | waiting
  | probing
  | timedOut
  | finished
  deriving DecidableEq

/-- The tap of the request is in place in the view of the request. -/
def Phase.tapped : Phase → Bool
  | .waiting | .probing | .timedOut => true
  | .arrived | .finished => false

/-- A call of a runner method for a job of the caller, under the taps that the
method wore when it was looked up. -/
structure Call (Request : Type) where
  caller : Request
  taps : List Request

/-- The runner, the lock of the service, and each request: its phase, whether
some of its bridge workers still run, what its sink holds, and what it has
answered. -/
structure State (Request : Type) where
  methods : Slots Method Request := {}
  holder : Option Request := none
  phase : Request → Phase := fun _ => .arrived
  working : Request → Bool := fun _ => false
  calls : List (Call Request) := []
  sink : Request → List Entry := fun _ => []
  top : Request → Option (List Entry) := fun _ => none

variable {Request : Type} [DecidableEq Request]

namespace State

variable (s : State Request) (r : Request)

def goto (p : Phase) : State Request := { s with phase := Function.update s.phase r p }

def setWorking (b : Bool) : State Request := { s with working := Function.update s.working r b }

def unlock : State Request := { s with holder := if s.holder = some r then none else s.holder }

/-- The rows go to the sink of each of the taps. -/
def record (taps : List Request) (rows : List Entry) : State Request :=
  { s with sink := fun q => if q ∈ taps then s.sink q ++ rows else s.sink q }

@[simp] theorem phase_goto (p : Phase) : (s.goto r p).phase = Function.update s.phase r p := rfl

@[simp] theorem working_goto (p : Phase) : (s.goto r p).working = s.working := rfl

@[simp] theorem phase_setWorking (b : Bool) : (s.setWorking r b).phase = s.phase := rfl

@[simp] theorem working_setWorking (b : Bool) :
    (s.setWorking r b).working = Function.update s.working r b := rfl

def restore : State Request := { s with methods := s.methods.restore r }

/-- The finally block, with no await before the answer is put together. -/
def finish (answer : Option (List Entry)) : State Request :=
  { (s.restore r).goto r .finished with top := Function.update s.top r answer }

@[simp] theorem phase_finish (answer : Option (List Entry)) :
    (s.finish r answer).phase = Function.update s.phase r .finished := rfl

@[simp] theorem working_finish (answer : Option (List Entry)) :
    (s.finish r answer).working = s.working := rfl

@[simp] theorem top_finish (answer : Option (List Entry)) :
    (s.finish r answer).top = Function.update s.top r answer := rfl

end State

/-- What happens between two awaits. A gather that fails leaves its other
workers at work, so a request may end before they do. -/
inductive Action (Request : Type) where
  | tap (r : Request)
  | acquire (r : Request)
  | call (r : Request) (m : Method)
  | deliver (i : Nat) (results : List TcpTestResult)
  | drop (i : Nat)
  | markDone (r : Request) (item : StrategyItem)
  | workersDone (r : Request)
  | complete (r : Request)
  | timeout (r : Request)
  | wake (r : Request)
  | fail (r : Request)

def successes (results : List TcpTestResult) : List Entry :=
  (results.filter (fun result => result.success)).map .probe

/-- A request asks about one domain, and the runner answers a call for the
domain it was asked about. -/
def step (domain : Request → String) (s : State Request) : Action Request → Option (State Request)
  | .tap r =>
      if s.phase r = .arrived then some ({ s with methods := s.methods.tap r }.goto r .waiting)
      else none
  | .acquire r =>
      if s.phase r = .waiting ∧ s.holder = none then
        some (({ s with holder := some r }.goto r .probing).setWorking r true)
      else none
  | .call r m =>
      if s.working r then some { s with calls := ⟨r, s.methods.current m⟩ :: s.calls } else none
  | .deliver i results => match s.calls[i]? with
      | none => none
      | some call =>
          if ∀ result ∈ results, result.domain = domain call.caller then
            some ({ s with calls := s.calls.eraseIdx i }.record call.taps (successes results))
          else none
  | .drop i => if i < s.calls.length then some { s with calls := s.calls.eraseIdx i } else none
  | .markDone r item =>
      if s.working r ∧ (s.phase r).tapped then some (s.record [r] [.job item (domain r)]) else none
  | .workersDone r =>
      if s.working r ∧ ∀ call ∈ s.calls, call.caller ≠ r then some (s.setWorking r false) else none
  | .complete r =>
      if s.phase r = .probing ∧ ¬ s.working r then
        some ((s.unlock r).finish r (some (mergeTopStrategies (s.sink r))))
      else none
  | .timeout r =>
      if s.phase r = .probing then some ((s.unlock r).goto r .timedOut) else none
  | .wake r =>
      if s.phase r = .timedOut then some (s.finish r (some (mergeTopStrategies (s.sink r)))) else none
  | .fail r => if (s.phase r).tapped then some ((s.unlock r).finish r none) else none

/-- A service that has been started. -/
def start : State Request := {}

end Blockchecks.FindStrategy
