import Blockchecks.ExportConf

namespace Blockchecks.ByedpiTranslator

open StrategyText ExportConf

inductive Quality where
  | translationFull
  | translationPartial
  deriving DecidableEq

structure Translation where
  argv : List String
  quality : Quality
  notes : List String := []
  deriving DecidableEq

def unmappedFoolings : List String :=
  ["badsum", "badsid", "badseq", "tcp_seq", "tcp_flags_unset", "tcp_flags_set", "ip_autottl", "ipfrag", "tcpseg",
    "padencap", "seqovl", "seqovl_pattern", "quic", "wssize", "circular", "dup", "tcp_ts"]

def unmappedFoolingPrefixes : List String := ["ip6_"]

def droppableFoolings : List String := ["tcp_ack", "tcp_ts_up"]

/-- The families, the longest names first. -/
def supportedFamilies : List String :=
  ["hostfakesplit", "fakeddisorder", "multidisorder", "fakedsplit", "multisplit", "syndata", "tlsrec", "fake", "oob"]

def posMap : List (String × String) :=
  [("midsld", "0+sm"), ("mid", "0+m"), ("start", "0"), ("end", "-1+e"), ("host", "0+h"), ("hostmid", "0+hm"),
    ("1", "1"), ("2", "2"), ("3", "3")]

def posFlagOrder : List (String × String) := [("tls_", "+s"), ("sni_", "+s"), ("http_", "+h"), ("host_", "+h")]

def isDigits (text : List Char) : Bool := !text.isEmpty && text.all Char.isDigit

def posToByedpi (posValue : String) : String :=
  let value := strip posValue.toList
  if isDigits value then String.ofList value
  else
    match posMap.lookup (String.ofList value) with
    | some pos => pos
    | none =>
        let flagged := posFlagOrder.findSome? (fun p =>
          let rest := value.drop p.1.toList.length
          if startsWith value p.1 && isDigits rest then some (String.ofList rest ++ p.2) else none)
        flagged.getD (String.ofList value)

/-- The first group of a search for a keyword and the characters of a class behind it. -/
def firstMatch (line : List Char) (keyword : String) (cls : Char → Bool) : Option String :=
  (search (assignment keyword cls) line).map Prod.snd

def posClass (c : Char) : Bool := c != ':' && c != ']' && c != ','

def multiPosClass (c : Char) : Bool := c != ':'

def hasRepeats (line : List Char) : Bool := (firstMatch line "repeats=" Char.isDigit).isSome

/-- Rows are split at every line break, and blank ones say nothing. -/
def rows (line : List Char) : List (List Char) := ((line.splitOnP isLineBreak).map strip).filter (· ≠ [])

def segmentName (segment : List Char) : Option String :=
  let seg := (strip segment).map Char.toLower
  if seg = [] then none else some (String.ofList (seg.takeWhile (· ≠ '=')))

def desyncOptionNames (line : List Char) : List String :=
  (rows line).flatMap (fun row => (row.splitOn ':').filterMap segmentName)

def isUnmapped (name : String) : Bool :=
  decide (name ∈ unmappedFoolings) || unmappedFoolingPrefixes.any (startsWith name.toList)

def hasUnmappedFooling (line : List Char) : Bool := (desyncOptionNames line).any isUnmapped

def foolingArgv (line : List Char) : List String × List String :=
  let names := desyncOptionNames line
  (if "tcp_md5" ∈ names then ["--md5sig"] else [],
    (droppableFoolings.filter (· ∈ names)).map (· ++ " unsupported — dropped"))

section files

-- The parameter gives the file of a blob alias, if there is one.
variable (blobPath : String → Option String)

def blobArgv (blobName : String) : List String :=
  match blobPath blobName with
  | some path => ["-l", path]
  | none => []

def translateFake (line : List Char) : Translation :=
  let blob := firstMatch line "blob=" isWordChar
  let fool := foolingArgv line
  { argv := ["-f", "-1"] ++ (blob.map (blobArgv blobPath)).getD [] ++ fool.1
    quality := .translationPartial
    notes := fool.2 ++
      if hasRepeats line then ["repeats=N has no ciadpi equivalent (single fake send)"] else [] }

def translateHostfakesplit (line : List Char) : Translation :=
  let fool := foolingArgv line
  { argv := ["--split", "1+sm"] ++
      (if contains line "disorder_after" || contains line "disorder" then ["--disorder", "1+sm"] else []) ++ fool.1
    quality := .translationPartial
    notes := fool.2 }

/-- The blob of a pattern, or of a fake. -/
def patternArgv (line : List Char) : List String :=
  (((firstMatch line "pattern=" isWordChar).or (firstMatch line "blob=" isWordChar)).map (blobArgv blobPath)).getD []

def translateFakedsplit (line : List Char) : Translation :=
  let pos := posToByedpi ((firstMatch line "pos=" posClass).getD "1")
  { argv := ["--fake", pos, "--disorder", pos] ++ patternArgv blobPath line
    quality := .translationFull }

def translateFakeddisorder (line : List Char) : Translation :=
  let pos := posToByedpi ((firstMatch line "pos=" posClass).getD "1")
  { argv := ["--disorder", pos, "--fake", pos] ++ patternArgv blobPath line
    quality := .translationFull }

def translateMultisplit (line : List Char) : Translation :=
  let value := (firstMatch line "pos=" multiPosClass).getD "1"
  let positions := ((value.toList.splitOn ',').map strip).filter (· ≠ [])
  { argv := positions.flatMap (fun p => ["--split", posToByedpi (String.ofList p)]) ++
      (if contains line "disorder" then
        (positions.head?.map (fun p => ["--disorder", posToByedpi (String.ofList p)])).getD []
      else [])
    quality := .translationPartial
    notes := if contains line "seqovl" then ["seqovl unsupported — dropped"] else [] }

def translateTlsrec (line : List Char) : Translation :=
  { argv := ["-r", posToByedpi ((firstMatch line "pos=" posClass).getD "1+s")]
    quality := .translationFull }

def urpAt (text : List Char) : Option Char :=
  if startsWith text "urp=" then (text.drop "urp=".toList.length).head?.filter (· ∈ ['b', 's', 'm', 'c']) else none

def urpPos : List (Char × String) := [('b', "0"), ('s', "0+sm"), ('m', "0+m"), ('c', "-1+e")]

def translateOob (line : List Char) : Translation :=
  let urp := (search urpAt line).getD 'b'
  { argv := ["-o", (urpPos.lookup urp).getD "0"]
    quality := .translationFull }

def translateSyndata (line : List Char) : Translation :=
  { argv := ["-f", "-1"] ++
      (if contains line "tls_mod" then ["-Q", if contains line "rnd" then "rand" else "orig"] else [])
    quality := .translationPartial
    notes := if hasRepeats line then ["repeats=N has no ciadpi equivalent"] else [] }

def familyOf (line : List Char) : Option String := supportedFamilies.find? (startsWith line)

def familyTranslators : List (String × (List Char → Translation)) :=
  [("fake", translateFake blobPath), ("hostfakesplit", translateHostfakesplit),
    ("fakedsplit", translateFakedsplit blobPath), ("fakeddisorder", translateFakeddisorder blobPath),
    ("multisplit", translateMultisplit), ("multidisorder", translateMultisplit), ("tlsrec", translateTlsrec),
    ("oob", translateOob), ("syndata", translateSyndata)]

def translate (strategy : String) : Option Translation :=
  let line := strip strategy.toList
  if line = [] then none
  else if hasUnmappedFooling line then none
  else
    match familyOf line with
    | none => none
    | some family => ((familyTranslators blobPath).lookup family).map (· line)

end files

end Blockchecks.ByedpiTranslator
