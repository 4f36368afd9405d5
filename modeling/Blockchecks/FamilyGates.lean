import Blockchecks.ProbeLogger
import Blockchecks.ResumeModes
import Mathlib.Data.List.Sort
import Mathlib.Data.List.SplitBy
import Mathlib.Data.String.Basic

namespace Blockchecks.FamilyGates

open BatchService ProbeLogger ResumeModes ResumeSkip Results RunStore StrategyText

def familyRank (family : String) : Nat :=
  if family ∈ tcpFamilies then tcpFamilies.idxOf family else 999

def sortByFamily (items : List StrategyItem) : List StrategyItem :=
  items.insertionSort (fun a b =>
    familyRank (classifyStrategyFamily a) < familyRank (classifyStrategyFamily b) ∨
      familyRank (classifyStrategyFamily a) = familyRank (classifyStrategyFamily b) ∧ a.label ≤ b.label)

/-- The need flags, with the two that no gate reads. -/
structure Needs extends FamilyNeedTracker where
  needFake : Nat := 1
  needMultidisorder : Nat := 1

def fakedFamilies : List String := ["faked", "fakedsplit", "fakeddisorder"]

def finishFamily (needs : Needs) (family : String) (hadPass : Bool) : Needs :=
  let val := if hadPass then 0 else 1
  if family = "fake" then { needs with needFake := val }
  else if family = "hostfake" then { needs with needHostfakesplit := val }
  else if family = "multisplit" then { needs with needMultisplit := val, needMultidisorder := val }
  else if family ∈ fakedFamilies then { needs with needFakedsplit := val, needFakeddisorder := val }
  else needs

/-- What test_tcp does with a strategy: its result, and whether it is logged.
A probe that raises leaves no row. -/
structure Probe where
  result : TcpTestResult
  logged : Bool := true
  dns : DnsMeta := {}

/-- The arguments of run_tcp_with_family_gates. A probe's outcome may depend on
how many the call has made before it. -/
structure Gates where
  domain : String
  scanLevel : String
  runId : Nat
  probe : Nat → StrategyItem → Probe

/-- The store that a resumed call asks, with the labels that worked when the
call began. -/
abbrev Resume := Db × List String

/-- What a turn of the loop over the families begins with: the flags, the checks
left until the stop event is set, the probes made, and the store of a resumed
call. -/
structure Turn where
  needs : Needs := {}
  stop : Option Nat := none
  clock : Nat := 0
  resume : Option Resume := none

/-- One turn: the block of items with their family, what it selects and probes,
and the pass that it finishes the family with. -/
structure BlockRun where
  turn : Turn
  family : String
  items : List StrategyItem
  selected : List StrategyItem
  probed : List (StrategyItem × Probe)
  hadPass : Bool

def BlockRun.after (r : BlockRun) : Needs := finishFamily r.turn.needs r.family r.hadPass

def succeeded (p : StrategyItem × Probe) : Bool := p.2.result.success

namespace Gates

variable (g : Gates)

/-- The rows that the campaign logger writes for probes of the oneshot backend. -/
def entries (probed : List (StrategyItem × Probe)) : List TcpEntry :=
  (probed.filter (fun p => p.2.logged)).map (fun p =>
    logTcpCampaign p.1 g.domain p.2.result .oneshot p.2.dns)

def store (db : Db) (probed : List (StrategyItem × Probe)) : Db := writeAll db g.runId (g.entries probed)

def hasRow (db : Db) (item : StrategyItem) : Bool := db.hasTcpResult g.runId item.label g.domain "tcp"

/-- Until the stop event is set. -/
def probeItems (stop : Option Nat) (clock : Nat) : List StrategyItem → List (StrategyItem × Probe)
  | [] => []
  | item :: items =>
      if stop = some 0 then []
      else
        let probe := g.probe clock item
        (item, probe) :: (if g.scanLevel = "single" ∧ probe.result.success then []
          else probeItems (stop.map (· - 1)) (clock + 1) items)

def resumed (t : Turn) (item : StrategyItem) : Bool := t.resume.any (fun r => g.hasRow r.1 item)

def selects (t : Turn) (item : StrategyItem) : Bool :=
  !g.resumed t item && !skipStrategy t.needs.toFamilyNeedTracker item g.scanLevel

/-- A resumed item whose label worked when the call began. -/
def knownPass (t : Turn) (item : StrategyItem) : Bool :=
  g.resumed t item && t.resume.any (fun r => decide (item.label ∈ r.2))

def runBlock (t : Turn) (family : String) (block : List StrategyItem) : BlockRun :=
  if skipFamily t.needs.toFamilyNeedTracker family g.scanLevel then ⟨t, family, block, [], [], false⟩
  else
    let selected := block.filter (g.selects t)
    if selected = [] then ⟨t, family, block, [], [], block.any (g.knownPass t)⟩
    else
      let probed := g.probeItems t.stop t.clock selected
      ⟨t, family, block, selected, probed, probed.any succeeded⟩

/-- What the turn leaves for the next. -/
def next (r : BlockRun) : Turn where
  needs := r.after
  stop := r.turn.stop.map (· - r.probed.length)
  clock := r.turn.clock + r.probed.length
  resume := r.turn.resume.map (fun p => (g.store p.1 r.probed, p.2))

/-- The stop event is asked before a family and before each probe. No block is
empty. -/
def runBlocks (t : Turn) : List (List StrategyItem) → List BlockRun
  | [] => []
  | [] :: blocks => runBlocks t blocks
  | (item :: items) :: blocks =>
      if t.stop = some 0 then []
      else
        let r := g.runBlock { t with stop := t.stop.map (· - 1) } (classifyStrategyFamily item) (item :: items)
        r :: (if g.scanLevel = "single" ∧ r.probed.any succeeded then [] else runBlocks (g.next r) blocks)

end Gates

def familyBlocks (items : List StrategyItem) : List (List StrategyItem) :=
  (sortByFamily items).splitBy (fun a b => classifyStrategyFamily a == classifyStrategyFamily b)

namespace Gates

variable (g : Gates)

def runTcpWithFamilyGates (resume : Option Resume) (stop : Option Nat) (items : List StrategyItem) :
    List BlockRun :=
  g.runBlocks { stop, resume } (familyBlocks items)

end Gates

def results (runs : List BlockRun) : List (StrategyItem × Probe) := runs.flatMap BlockRun.probed

def executed (runs : List BlockRun) : List StrategyItem := (results runs).map Prod.fst

end Blockchecks.FamilyGates
