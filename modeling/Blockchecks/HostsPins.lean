import Blockchecks.DomainLoader
import Blockchecks.MatrixFingerprint
import Blockchecks.OrderedDict
import Blockchecks.TextFile

namespace Blockchecks.HostsPins

open StrategyText LuaConf ExportConf OrderedDict TextFile

def isHexDigit (c : Char) : Bool := c.isDigit || decide ('a' ≤ c ∧ c ≤ 'f') || decide ('A' ≤ c ∧ c ≤ 'F')

def isHextet (part : List Char) : Bool := !part.isEmpty && decide (part.length ≤ 4) && part.all isHexDigit

/-- The hextets on one side of a double colon. -/
def isSide (parts : List (List Char)) : Bool := decide (parts = [[]]) || parts.all isHextet

def sideLength (parts : List (List Char)) : Nat := if parts = [[]] then 0 else parts.length

/-- Eight hextets, or fewer with one double colon. -/
def areHextets (parts : List (List Char)) : Bool :=
  match ((parts.drop 1).dropLast).findIdxs List.isEmpty with
  | [] => decide (parts.length = 8) && parts.all isHextet
  | [i] =>
      let hi := parts.take (i + 1)
      let lo := parts.drop (i + 2)
      isSide hi && isSide lo && decide (sideLength hi + sideLength lo < 8)
  | _ => false

/-- An IPv4 address at the end stands for two hextets. -/
def isIpv6Text (text : List Char) : Bool :=
  let parts := split text ":"
  let last := parts.getLast?.getD []
  decide (3 ≤ parts.length) &&
    if '.' ∈ last then DomainLoader.isLiteralIp last && areHextets (parts.dropLast ++ [['0'], ['0']])
    else areHextets parts

/-- IPv6Address, which takes a scope behind a percent sign. -/
def isIpv6 (text : List Char) : Bool :=
  let scope := (text.dropWhile (· ≠ '%')).drop 1
  !text.contains '/' && (!text.contains '%' || !scope.isEmpty && !scope.contains '%') &&
    isIpv6Text (text.takeWhile (· ≠ '%'))

def isIp (token : List Char) : Bool := DomainLoader.isLiteralIp token || isIpv6 token

/-- The parts of str.split without a separator. -/
def words (text : List Char) : List (List Char) := (text.splitOnP isSpace).filter (· ≠ [])

/-- The domain and the address of a line. -/
def pinOf (raw : List Char) : Option (String × String) :=
  let line := strip raw
  if line = [] ∨ startsWith line "#" then none
  else match words line with
    | first :: second :: _ =>
        if isIp first then some (String.ofList second, String.ofList first)
        else if isIp second then some (String.ofList first, String.ofList second)
        else none
    | _ => none

def parsePins (text : List Char) : Dict String String :=
  ((splitlines text).filterMap pinOf).foldl (fun pins pin => pins.set pin.1 pin.2) .empty

def mergePins (current updates : Dict String String) : Dict String String :=
  updates.entries.foldl (fun merged e => if e.2 ≠ "" then merged.set e.1 e.2 else merged) current

/-- What an audit knows of a domain: its addresses, and maybe when they were checked. -/
inductive Value where
  | addresses (ips : List String)
  | checked (ips : List String) (checkedAt : String)

def Value.ips : Value → List String
  | .addresses ips | .checked ips _ => ips

def newRecords (records : Dict String Value) : Dict String String :=
  records.entries.foldl (fun new e => match e.2.ips with
    | [] => new
    | ip :: _ => new.set e.1 ip) .empty

def headers : List String :=
  ["# Generated by blockcheckS — verified DoH records (anti-hijack).",
    "# Copy to C:\\Windows\\System32\\drivers\\etc\\hosts on Windows.",
    "# Auto-refreshed by blockcheckS IP pinning; hand-editable."]

def pinLine (pins : Dict String String) (domain : String) : List Char :=
  ((pins.get? domain).getD "").toList ++ '\t' :: domain.toList

def hostsText (pins : Dict String String) : List Char :=
  joinLines (headers.map String.toList ++ (MatrixFingerprint.sorted pins.keys).map (pinLine pins)) ++ ['\n']

/-- The pins of a hosts file; a file that cannot be read has none. -/
def readPins (file : Option (List Char)) : Dict String String :=
  match file with
  | none => .empty
  | some text => parsePins (universalNewlines text)

/-- The text that becomes the hosts file. -/
def writeHosts (file : Option (List Char)) (records : Dict String Value) : List Char :=
  hostsText (mergePins (readPins file) (newRecords records))

end Blockchecks.HostsPins
