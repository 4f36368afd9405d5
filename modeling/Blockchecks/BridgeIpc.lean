import Blockchecks.Runs

namespace Blockchecks.BridgeIpc

inductive EventKind
  | applied
  | strategyFail
  deriving DecidableEq, Repr

inductive FailReason
  | rstIn
  | retrans
  deriving DecidableEq, Repr

/-- One table written by bs_write_ipc. A key that the table lacks is none. -/
structure EventLine where
  event : EventKind
  id : Option Nat
  gen : Option Nat
  reason : Option FailReason := none
  ttl : Option Nat := none
  matched : Option Nat := none
  deriving DecidableEq, Repr

structure BridgeEvent where
  event : EventKind
  gen : Nat := 0
  id : Nat := 0
  reason : Option FailReason := none
  ttl : Nat := 0
  matched : Int := -1
  deriving DecidableEq, Repr

namespace BridgeEvent

/-- Absent numbers read as zero, except matched, whose absence is -1. -/
def fromLine (line : EventLine) : BridgeEvent where
  event := line.event
  gen := line.gen.getD 0
  id := line.id.getD 0
  reason := line.reason
  ttl := line.ttl.getD 0
  matched := match line.matched with
    | some n => n
    | none => -1

def isApplied (ev : BridgeEvent) : Bool := decide (ev.event = .applied ∧ ev.matched ≠ 0)

def isRstIn (ev : BridgeEvent) : Bool :=
  decide (ev.event = .strategyFail ∧ ev.reason = some .rstIn)

end BridgeEvent

/-- The bridge directory. A number file is none while it holds the empty
sentinel of setup, which Lua's tonumber reads as nil. -/
structure BridgeFiles where
  strategyId : Option Nat
  strategyGen : Option Nat
  strategyReady : Option Nat
  strategyCmd : Option String
  events : List EventLine
  deriving DecidableEq, Repr

def setup : BridgeFiles := ⟨none, none, none, none, []⟩

def drainEvents (files : BridgeFiles) (sinceGen : Nat) (expectId : Option Nat) : List BridgeEvent :=
  (files.events.map BridgeEvent.fromLine).filter
    (fun ev => decide (sinceGen ≤ ev.gen) || decide (expectId = some ev.id))

def bridgeApplied (events : List BridgeEvent) : Bool := events.any BridgeEvent.isApplied

inductive PublishStep
  | truncateEvents
  | replaceGen
  | replaceCmd
  | replaceId
  | replaceReady
  | finished
  deriving DecidableEq, Repr

structure Publication where
  strategyId : Nat
  gen : Nat
  cmd : Option String := none
  deriving DecidableEq, Repr

/-- A bs_read_strategy_ipc call between two of its file reads. The last field
of haveGen is not stored by Lua: it records what strategy.id held when
strategy.gen was read. -/
inductive Reader
  | idle
  | haveReady (readyGen : Nat)
  | haveGen (gen : Nat) (idThen : Option Nat)
  deriving DecidableEq, Repr

structure PlanInstance where
  core : String
  strategy : Option Nat
  deriving DecidableEq, Repr

structure Execution where
  id : Nat
  instances : List PlanInstance
  deriving DecidableEq, Repr

/-- Publisher, bridge directory and daemon. The last three fields are history:
the publications so far, the pairs readers returned, and the executions since
the events file was last truncated. -/
structure Bridge where
  files : BridgeFiles
  current : Publication
  next : PublishStep
  reader : Reader
  activeId : Nat
  activeGen : Nat
  published : List (Nat × Nat)
  returned : List (Nat × Nat)
  window : List Execution
  deriving DecidableEq, Repr

def Bridge.fresh : Bridge where
  files := setup
  current := ⟨1, 0, none⟩
  next := .finished
  reader := .idle
  activeId := 1
  activeGen := 0
  published := []
  returned := []
  window := []

inductive Action
  | probe (p : Publication)
  | fileOp
  | readReady
  | readGen
  | readId
  | openFails
  | scanPick (plan : List PlanInstance)
  | rstIn (ttl : Nat)
  | retrans
  deriving DecidableEq, Repr

def Publication.staged (p : Publication) : Bool := decide (p.cmd.getD "" ≠ "")

def fileOp (b : Bridge) : Option Bridge :=
  match b.next with
  | .truncateEvents =>
      some { b with files := { b.files with events := [] }, window := [], next := .replaceGen }
  | .replaceGen =>
      some { b with
        files := { b.files with strategyGen := some b.current.gen }
        next := if b.current.staged then .replaceCmd else .replaceId }
  | .replaceCmd =>
      some { b with files := { b.files with strategyCmd := b.current.cmd }, next := .replaceId }
  | .replaceId =>
      some { b with
        files := { b.files with strategyId := some b.current.strategyId }
        next := .replaceReady }
  | .replaceReady =>
      some { b with
        files := { b.files with strategyReady := some b.current.gen }
        next := .finished }
  | .finished => none

def readReady (b : Bridge) : Option Bridge :=
  match b.reader with
  | .idle => some { b with
      reader := match b.files.strategyReady with
        | some r => .haveReady r
        | none => .idle }
  | _ => none

/-- The fence: a generation that differs from ready ends the call with nil. -/
def readGen (b : Bridge) : Option Bridge :=
  match b.reader with
  | .haveReady r => some { b with
      reader := if b.files.strategyGen = some r then .haveGen r b.files.strategyId else .idle }
  | _ => none

/-- Every caller stores the returned pair into the two globals. -/
def readId (b : Bridge) : Option Bridge :=
  match b.reader with
  | .haveGen g _ => match b.files.strategyId with
    | some i => some { b with
        reader := .idle, activeId := i, activeGen := g, returned := b.returned ++ [(i, g)] }
    | none => some { b with reader := .idle }
  | _ => none

def appendEvent (b : Bridge) (line : EventLine) : Bridge :=
  { b with files := { b.files with events := b.files.events ++ [line] } }

def matchedInstances (id : Nat) (plan : List PlanInstance) : List PlanInstance :=
  plan.filter (fun inst => decide (inst.strategy = some id))

/-- The plan loop of scan_pick and the APPLIED line that ends it. The loop
touches no file of the bridge directory. -/
def scanPick (b : Bridge) (plan : List PlanInstance) : Bridge :=
  let hits := matchedInstances b.activeId plan
  let line : EventLine :=
    { event := .applied, id := some b.activeId, gen := some b.activeGen, matched := some hits.length }
  appendEvent { b with window := b.window ++ [⟨b.activeId, hits⟩] } line

def smartFallback (b : Bridge) (reason : FailReason) (ttl : Option Nat) : Bridge :=
  appendEvent b
    { event := .strategyFail, id := some b.activeId, gen := some b.activeGen,
      reason := some reason, ttl := ttl }

/-- One file operation of either side. The daemon is single threaded, so it
appends only between two reader calls. -/
def step (b : Bridge) : Action → Option Bridge
  | .probe p => if b.next = .finished then
      some { b with
        current := p
        next := .truncateEvents
        published := b.published ++ [(p.strategyId, p.gen)] }
    else none
  | .fileOp => fileOp b
  | .readReady => readReady b
  | .readGen => readGen b
  | .readId => readId b
  | .openFails => if b.reader = .idle then none else some { b with reader := .idle }
  | .scanPick plan => if b.reader = .idle then some (scanPick b plan) else none
  | .rstIn ttl => if b.reader = .idle ∧ 64 ≤ ttl then
      some (smartFallback b .rstIn (some ttl)) else none
  | .retrans => if b.reader = .idle then some (smartFallback b .retrans none) else none

/-- Each probe draws a larger generation than the one before it; the counter
behind next_probe_gen starts at zero. -/
def Increasing (b : Bridge) : Action → Prop
  | .probe p => b.current.gen < p.gen
  | _ => True

instance (b : Bridge) : (a : Action) → Decidable (Increasing b a)
  | .probe p => inferInstanceAs (Decidable (b.current.gen < p.gen))
  | .fileOp | .readReady | .readGen | .readId | .openFails | .scanPick _ | .rstIn _ | .retrans =>
      isTrue trivial

def Distinct (b : Bridge) : Action → Prop
  | .probe p => p.gen ∉ b.published.map Prod.snd
  | _ => True

instance (b : Bridge) : (a : Action) → Decidable (Distinct b a)
  | .probe p => inferInstanceAs (Decidable (p.gen ∉ b.published.map Prod.snd))
  | .fileOp | .readReady | .readGen | .readId | .openFails | .scanPick _ | .rstIn _ | .retrans =>
      isTrue trivial

/-- When a reader opens strategy.id, the file still holds what it held when
this reader opened strategy.gen. -/
def StableId (b : Bridge) : Action → Prop
  | .readId => match b.reader with
    | .haveGen _ idThen => b.files.strategyId = idThen
    | _ => True
  | _ => True

instance (b : Bridge) : (a : Action) → Decidable (StableId b a)
  | .readId => match h : b.reader with
    | .haveGen _ idThen => decidable_of_iff (b.files.strategyId = idThen) (by simp [StableId, h])
    | .idle | .haveReady _ => isTrue (by simp [StableId, h])
  | .probe _ | .fileOp | .readReady | .readGen | .openFails | .scanPick _ | .rstIn _ | .retrans =>
      isTrue trivial

end Blockchecks.BridgeIpc
