import Blockchecks.FamilyExpanders
import Blockchecks.RoundRobin
import Blockchecks.UserMatrix

namespace Blockchecks.StandardGenerator

open Columns FamilyAxes FamilyExpanders FamilyRegistry OrderedDict RoundRobin StrategyText TextFile TriageRecord

/-- The protocol that a family's items carry. -/
def itemProtocol (family : Family) : String :=
  if family.protocol = "tcp" then "tls12" else family.protocol

section digest

variable (digest : String → String)

def expandBatches (family : Family) (axes : Axes) (scanLevel : String) (known : List String) : List Batch :=
  match family with
  | .fake => famFake digest axes scanLevel known
  | .rstFake => famRstFake digest axes
  | .synack => famSynack axes
  | .genevaFool => famGenevaFool axes
  | .wssize => famWssize axes
  | .hostfake => famHostfake axes scanLevel known
  | .multisplit => famMultisplit axes scanLevel
  | .multidisorder => famMultidisorder axes
  | .syndata => famSyndata axes
  | .tcpseg => famTcpseg axes
  | .oob => famOob axes
  | .multiFake => famMultiFake axes
  | .tripleFake => famTripleFake axes
  | .fakeMultisplit => famFakeMultisplit axes
  | .fakeMultidisorder => famFakeMultidisorder axes
  | .fakeMultisplitHostfake => famFakeMultisplitHostfake axes
  | .fakeHostfake => famFakeHostfake axes
  | .fakedsplit => famFakedsplit axes
  | .fakeddisorder => famFakeddisorder axes
  | .fakeFakedsplit => famFakeFakedsplit axes
  | .tcpIpfrag => famTcpIpfrag axes
  | .httpSimple => famHttpSimple axes
  | .httpFake => famHttpFake axes
  | .httpTlsDual => famHttpTlsDual axes
  | .udpDiscord => famUdpDiscord axes
  | .udpMultiblob => famUdpMultiblob axes
  | .quicFake => famQuicFake axes
  | .quicGv => famQuicGv axes
  | .quicIpfrag => famQuicIpfrag axes
  | .udpQuic => famUdpQuic axes
  | .udpGame => famUdpGame axes

def expandFamily (family : Family) (axes : Axes) (scanLevel : String) (known : List String) :
    List StrategyItem :=
  emitBatches scanLevel (itemProtocol family) [] (expandBatches digest family axes scanLevel known)

/-- The arguments of generate that all sources of a scan share. The labels that
are known to work are those of the run set, or of the store. -/
structure Scan where
  scanLevel : String
  triage : Option Profile
  known : List String

theorem mem_registry (f : Family) : f ∈ registry := by
  cases f <;> decide

theorem name_injective : Function.Injective Family.name := by
  have hnodup : (registry.map Family.name).Nodup := by decide
  exact fun f f' h => List.inj_on_of_nodup_map hnodup (mem_registry f) (mem_registry f') h

/-- The types that the generator is made with: an unknown one is an error. -/
structure Generator where
  strategyTypes : List String
  known : ∀ t ∈ strategyTypes, (byName (resolveFamilyName t)).isSome ∨ t = "all"

namespace Generator

variable (g : Generator) (scan : Scan) (protocol : String) (maxCount : Nat)

/-- The families of the protocol, in the order of the types. -/
def types : List Family :=
  let raw := if "all" ∈ g.strategyTypes then registry.map Family.name else g.strategyTypes
  let allowed := familiesByProtocol protocol
  firsts id (raw.filterMap (fun t => (byName (resolveFamilyName t)).filter (· ∈ allowed)))

def families : List Family :=
  match scan.triage with
  | none => g.types protocol
  | some triage =>
      if scan.scanLevel = "full" then g.types protocol
      else
        let narrowed := (g.types protocol).filter
          (fun f => decide (f.name ∈ familiesForProfile triage.toTriageProfile))
        if narrowed = [] then g.types protocol else narrowed

theorem types_nodup : (g.types protocol).Nodup := by
  have h := nodup_map_firsts id ((if "all" ∈ g.strategyTypes then registry.map Family.name
    else g.strategyTypes).filterMap (fun t => (byName (resolveFamilyName t)).filter (· ∈ familiesByProtocol protocol)))
  rwa [List.map_id] at h

theorem families_nodup : (g.families scan protocol).Nodup := by
  have htypes := g.types_nodup protocol
  rw [families]
  split
  next => exact htypes
  next =>
    split
    next => exact htypes
    next =>
      dsimp only
      split
      next => exact htypes
      next => exact htypes.filter _

/-- The items of each family, in the order of the types. -/
def expanded : Dict String (List StrategyItem) where
  entries := (g.families scan protocol).map (fun f => (f.name,
    expandFamily digest f (prepared scan.triage scan.scanLevel protocol f) scan.scanLevel scan.known))
  nodup := by
    rw [List.map_map]
    exact (g.families_nodup scan protocol).map (fun f f' h => name_injective h)

/-- One round more than the longest family has items is enough. -/
def generate : List StrategyItem :=
  if scan.triage.any (fun t => !t.bypassable) then []
  else
    let expanded := g.expanded digest scan protocol
    let flat := expanded.values.flatten
    pruneItemsByTriage (if maxCount < flat.length then
        (roundRobin (longest expanded.values + 1) expanded maxCount).getD []
      else flat.take maxCount)
      (scan.triage.map Profile.toTriageProfile) scan.scanLevel

end Generator

/-- The label of a line: its first line as a short text, with the digest. -/
def cmdHumanLabel (line : List Char) : List Char :=
  UserMatrix.cmdHumanLabel (fun pre cmd => (cmdLabel digest (String.ofList pre) (String.ofList cmd)).toList) line

def listProtocols : List String := ["http", "tls12", "tls13", "quic", "udp_voice"]

/-- CustomListGenerator.generate on the text of its list, if there is one. -/
def customItems (protocol scanLevel : String) (maxCount : Nat) (list : Option (List Char)) : List StrategyItem :=
  if protocol ∈ listProtocols then
    let lines := ((((universalNewlines (list.getD [])).splitOn '\n').map strip).filter
      (fun line => line ≠ [] ∧ startsWith line "#" = false))
    let items := lines.map (fun line =>
      ⟨String.ofList (cmdHumanLabel digest line), String.ofList line, false, protocol⟩)
    (if scanLevel = "single" then items.take 1 else items).take maxCount
  else []

/-- UserMatrixGenerator.generate, with its texts as strings. -/
def userItems (protocol scanLevel : String) (maxCount : Nat) (matrix : List Char) : List StrategyItem :=
  (UserMatrix.generate (fun pre cmd => (cmdLabel digest (String.ofList pre) (String.ofList cmd)).toList)
    protocol scanLevel maxCount matrix).map
      (fun item => ⟨String.ofList item.label, String.ofList item.strategy, false, item.protocol⟩)

/-- A generator of a matrix, with the protocol that it is called for. -/
inductive Source where
  | standard (g : Generator) (protocol : String)
  | custom (protocol : String) (list : Option (List Char))
  | userMatrix (protocol : String) (matrix : List Char)

def Source.items (scan : Scan) (maxCount : Nat) : Source → List StrategyItem
  | .standard g protocol => g.generate digest scan protocol maxCount
  | .custom protocol list => customItems digest protocol scan.scanLevel maxCount list
  | .userMatrix protocol matrix => userItems digest protocol scan.scanLevel maxCount matrix

end digest

/-- The first item of each strategy. -/
def dedupe (items : List StrategyItem) (maxCount : Nat) : List StrategyItem :=
  (items.foldl (fun out item =>
    if item.strategy ∈ out.map StrategyItem.strategy then out else out ++ [item]) []).take maxCount

/-- A list of a user's own is not pruned. -/
def finalizeGenerated (items : List StrategyItem) (maxCount : Nat) (triage : Option Profile)
    (scanLevel : String) (userMatrix : Bool) : List StrategyItem :=
  if userMatrix then dedupe items maxCount
  else pruneItemsByTriage (dedupe items maxCount) (triage.map Profile.toTriageProfile) scanLevel

inductive Lane where
  | tcp | udp | quic

/-- The protocol that an item leaves a lane with. -/
def Lane.coerce : Lane → String → String
  | .tcp, protocol => protocol
  | .udp, protocol => if protocol ∈ ["udp_voice", "udp_game", "quic"] then protocol else "udp_voice"
  | .quic, _ => "quic"

/-- The part of a source, or all where that would be nothing. -/
def share (maxCount n : Nat) : Nat := if maxCount / n = 0 then maxCount else maxCount / n

/-- MatrixGenerator.generate_tcp, generate_udp and generate_quic. -/
def generated (digest : String → String) (lane : Lane) (scan : Scan) (sources : List Source) (maxCount : Nat)
    (userMatrix : Bool) : List StrategyItem :=
  let items := sources.flatMap (Source.items digest scan (share maxCount sources.length))
  finalizeGenerated (items.map (fun item => { item with protocol := lane.coerce item.protocol })) maxCount
    scan.triage scan.scanLevel userMatrix

/-- The strategies of a preset that find_strategy tries. -/
def findStrategies (preset : List Char) : List (List Char) :=
  (((splitlines (universalNewlines preset)).filter
    (fun line => strip line ≠ [] ∧ startsWith line "#" = false)).map strip).take 120

/-- The items of find_strategy for its domain, which is not blank. -/
def findStrategyItems (reqDomain : String) (preset : List Char) : List StrategyItem :=
  (findStrategies preset).map (fun s =>
    ⟨String.ofList ((strip reqDomain.toList ++ '|' :: s).take 60), String.ofList s, false, "tls12"⟩)

end Blockchecks.StandardGenerator
