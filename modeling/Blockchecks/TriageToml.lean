import Blockchecks.TextFile
import Blockchecks.Toml
import Blockchecks.TriageRecord
import Mathlib.Data.List.Sort

namespace Blockchecks.TriageToml

open FailPhases TriageProfiles TriageRecord TextFile

section clusters

/-- A value as a set tells it from another: a truth value is a number there. -/
inductive Atom where
  | none
  | number (x : ℚ)
  | text (s : String)
  deriving DecidableEq

/-- Lists and dicts are not hashable. -/
def atom : Value → Option Atom
  | .none => some .none
  | .bool b => some (.number (if b then 1 else 0))
  | .int n => some (.number n)
  | .number x => some (.number x)
  | .str s => some (.text s)
  | .list _ => Option.none
  | .dict _ => Option.none

def clusterKeys : List String :=
  ["phase", "l3", "rst_at_sni", "silent_drop", "stall", "quic_drop", "ip_blocked", "prolog_ok"]

def reportFingerprint (row : Fields) : Option (List Atom) := clusterKeys.mapM (fun key => atom (Value.get row key))

abbrev Reports := List (String × Fields)

/-- names_for[fp]. -/
def namesFor (reports : Reports) (print : List Atom) : List String :=
  ((reports.filter (fun r => reportFingerprint r.2 = some print)).map Prod.fst).insertionSort (· ≤ ·)

/-- The larger cluster first, and of two that are as large the one with the smaller name. -/
def before (reports : Reports) (a b : List Atom) : Prop :=
  (namesFor reports b).length < (namesFor reports a).length ∨
    ((namesFor reports a).length = (namesFor reports b).length ∧
      (namesFor reports a).headD "" ≤ (namesFor reports b).headD "")

instance (reports : Reports) : DecidableRel (before reports) := fun a b =>
  inferInstanceAs (Decidable ((namesFor reports b).length < (namesFor reports a).length ∨
    ((namesFor reports a).length = (namesFor reports b).length ∧
      (namesFor reports a).headD "" ≤ (namesFor reports b).headD "")))

/-- sample[fp]: the row of the first name. -/
def sample (reports : Reports) (print : List Atom) : Fields :=
  ((reports.find? (fun r => some r.1 = (namesFor reports print).head?)).map Prod.snd).getD []

def cluster (reports : Reports) (print : List Atom) : Fields :=
  ("primary_domain", .str (", ".intercalate (namesFor reports print))) ::
    (clusterKeys.filter (fun key => key ∈ (sample reports print).map Prod.fst)).map
      (fun key => (key, Value.get (sample reports print) key))

def clusterDomainReports (reports : Reports) : Option (List Fields) :=
  (reports.mapM (fun r => reportFingerprint r.2)).map fun prints =>
    (prints.dedup.insertionSort (before reports)).map (cluster reports)

/-- The name of the first cluster, which is a text always. -/
def clusteredPrimaryDomain (clusters : List Fields) (fallback : String) : Option String :=
  match clusters with
  | [] => some fallback
  | first :: _ => (Value.get first "primary_domain").asStr

end clusters

section dump

def replaceChar (c : Char) (new text : List Char) : List Char :=
  text.flatMap (fun d => if d = c then new else [d])

def tomlStr (value : String) : List Char :=
  '"' :: (replaceChar '"' ['\\', '"'] (replaceChar '\\' ['\\', '\\'] value.toList) ++ ['"'])

def tomlList (values : List String) : List Char :=
  '[' :: (", ".toList.intercalate (values.map tomlStr) ++ [']'])

def tomlBool (value : Bool) : List Char := if value then "true".toList else "false".toList

/-- f"{key} = {value}". -/
def assign (key : String) (value : List Char) : List Char := key.toList ++ " = ".toList ++ value

def flagLine (d : Fields) (key : String) : List Char := assign key (tomlBool (Value.get d key).truthy)

def optionalFlag (d : Fields) (key : String) : List (List Char) :=
  match Value.get d key with
  | .none => []
  | _ => [flagLine d key]

def flagLines (d : Fields) : List (List Char) :=
  [flagLine d "silent_drop_after_sni", flagLine d "rst_at_sni", flagLine d "voice_ok", flagLine d "udp_blocked",
    flagLine d "dns_hijacked", flagLine d "dns_sinkhole"] ++
    (optionalFlag d "ech_blocked" ++ optionalFlag d "http_blocked")

/-- The hops of a profile are numbers where they are known. -/
def hopLine (d : Fields) (key : String) : Option (List Char) :=
  match Value.get d key with
  | .int n => some (assign key (toString n).toList)
  | _ => none

def hopLines (d : Fields) : List (List Char) := ["server_hops", "dpi_hops", "autottl_delta"].filterMap (hopLine d)

/-- f"{key} = {_toml_list(list(d.get(field) or []))}". -/
def listLine (d : Fields) (key field : String) : Option (List Char) :=
  (Value.get d field).asStrings.map fun items => assign key (tomlList items)

def hostLines (d : Fields) : Option (List (List Char)) :=
  if (Value.get d "viable_hosts").truthy then (listLine d "hosts" "viable_hosts").map fun line => [line]
  else some []

def dpiDiagLines (d : Fields) : Option (List (List Char)) := do
  let diag ← (Value.get d "dpi_diag").asDict
  if diag = [] then some []
  else do
    let sniWhitelist ← listLine diag "sni_whitelist" "sni_whitelist"
    let dnsAsMismatch ← listLine diag "dns_as_mismatch" "dns_as_mismatch"
    let cgnatSinkhole ← listLine diag "cgnat_sinkhole" "cgnat_sinkhole"
    some [[], "[dpi_diag]".toList, sniWhitelist, dnsAsMismatch, cgnatSinkhole]

/-- The value of a report, of which none is a fraction. -/
def reportText : Value → Option (List Char)
  | .bool b => some (tomlBool b)
  | .str s => some (tomlStr s)
  | .int n => some (tomlStr (toString n))
  | _ => none

def clusterLine (cluster : Fields) (key : String) : Option (List Char) :=
  (reportText (Value.get cluster key)).map (assign key)

def lineKeys : List String :=
  ["phase", "l3", "stall", "rst_at_sni", "silent_drop", "quic_drop", "ip_blocked", "prolog_ok"]

def isNone : Value → Bool
  | .none => true
  | _ => false

def oneClusterLines (cluster : Fields) : Option (List (List Char)) := do
  let primaryDomain ← (Value.get cluster "primary_domain").asStrOr
  let extras ← (lineKeys.filter (fun key => !isNone (Value.get cluster key))).mapM (clusterLine cluster)
  some ([[], "[[cluster]]".toList, assign "primary_domain" (tomlStr primaryDomain)] ++ extras)

def clusterTomlLines (clusters : List Fields) : Option (List (List Char)) :=
  if clusters.length < 2 then some [] else (clusters.mapM oneClusterLines).map List.flatten

def notes : List String := ["send:repeats=6 → SSL 35 on L4-checksum-normalizing DPI"]

/-- The text of time.strftime("%Y-%m-%dT%H:%M:%S"). -/
structure Stamp where
  text : String
  clock : ∀ c ∈ text.toList, c.isDigit = true ∨ c ∈ ['-', ':', 'T']

/-- None is what raises. -/
def dumpTriageToml (now : Stamp) (profile : Profile) (primaryDomain : String) : Option (List Char) := do
  let d := profile.toDict
  let clusters ← clusterDomainReports profile.domainReports
  let top ← clusteredPrimaryDomain clusters primaryDomain
  let hops := hopLines d
  let clusterBlock ← clusterTomlLines clusters
  let viableFoolings ← listLine d "foolings" "viable_foolings"
  let viableBlobs ← listLine d "blobs" "viable_blobs"
  let splitMode ← (Value.get d "split_mode").asStrOr
  let hosts ← hostLines d
  let deadFoolings ← listLine d "foolings" "dead_foolings"
  let diag ← dpiDiagLines d
  some (joinLines (
    ["version = 1".toList,
      assign "updated_at" (tomlStr now.text),
      assign "primary_domain" (tomlStr top),
      [],
      "[flags]".toList] ++
    flagLines d ++
    [[], "[hops]".toList] ++
    (if hops = [] then ["# hops unknown".toList] else hops) ++
    [[], "[viable]".toList, viableFoolings, viableBlobs, assign "split_mode" (tomlStr splitMode)] ++
    hosts ++
    [[], "[dead]".toList, deadFoolings, assign "notes" (tomlList notes)] ++
    diag ++
    clusterBlock ++
    [[]]))

end dump

section load

open Toml (Leaf Node Document)

def leafValue : Leaf → Value
  | .bool b => .bool b
  | .int n => .int n
  | .text s => .str s
  | .texts items => .strings items

def tableValue (entries : Toml.Table) : Fields := entries.map (fun e => (e.1, leafValue e.2))

def nodeValue : Node → Value
  | .leaf value => leafValue value
  | .table entries => .dict (tableValue entries)
  | .tables elements => .list (elements.map (fun entries => .dict (tableValue entries)))

/-- The dict that tomllib makes of a document. -/
def rawOf (document : Document) : Fields := document.map (fun e => (e.1, nodeValue e.2))

/-- list(value or []). -/
def asList (v : Value) : Option (List Value) :=
  if v.truthy then
    match v with
    | .list items => some items
    | _ => none
  else some []

/-- The later entries of a dict stand first, as they hide the earlier ones. -/
def flattenTriageToml (raw : Fields) : Option Fields := do
  let flags ← (Value.get raw "flags").asDict
  let hops ← (Value.get raw "hops").asDict
  let viable ← (Value.get raw "viable").asDict
  let dead ← (Value.get raw "dead").asDict
  let viableFoolings ← asList (Value.get viable "foolings")
  let viableBlobs ← asList (Value.get viable "blobs")
  let splitMode ← (Value.get viable "split_mode").asStrOr
  let deadFoolings ← asList (Value.get dead "foolings")
  let viableHosts ← asList (Value.get viable "hosts")
  let dpiDiag ← (Value.get raw "dpi_diag").asDict
  some ([("viable_foolings", .list viableFoolings), ("viable_blobs", .list viableBlobs),
    ("split_mode", .str splitMode), ("dead_foolings", .list deadFoolings), ("viable_hosts", .list viableHosts),
    ("dpi_diag", .dict dpiDiag)] ++ hops ++ flags)

/-- A file that is missing or no TOML is no profile, and what raises is none either. -/
def loadTriageToml (members : List FailPhase) (file : Option (List Char)) : Option Profile := do
  let text ← file
  let document ← Toml.loads (universalNewlines text)
  let data ← flattenTriageToml (rawOf document)
  fromDict members data

end load

end Blockchecks.TriageToml
