import Blockchecks.FailPhases
import Mathlib.Algebra.Order.Floor.Ring
import Mathlib.Data.Rat.Floor

namespace Blockchecks.TriageRecord

open FailPhases TriageProfiles

/-- The values that a profile holds as a dict. -/
inductive Value where
  | none
  | bool (b : Bool)
  | int (n : Int)
  | number (x : ℚ)
  | str (s : String)
  | list (items : List Value)
  | dict (entries : List (String × Value))

abbrev Fields := List (String × Value)

namespace Value

/-- data.get(key), and raw.get(key). -/
def get : Fields → String → Value
  | [], _ => .none
  | (name, value) :: entries, key => if name = key then value else get entries key

def truthy : Value → Bool
  | .none => false
  | .bool b => b
  | .int n => n != 0
  | .number x => x != 0
  | .str s => s != ""
  | .list items => !items.isEmpty
  | .dict entries => !entries.isEmpty

def ofOption {α : Type} (make : α → Value) : Option α → Value
  | some x => make x
  | Option.none => .none

def strings (items : List String) : Value := .list (items.map .str)

/-! What from_dict makes of a value. A value that the annotation of its field does not
allow is none, and so is what raises. -/

def asStr : Value → Option String
  | .str s => some s
  | _ => Option.none

/-- str(value or ""). -/
def asStrOr (v : Value) : Option String := if v.truthy then v.asStr else some ""

/-- list(value or []), with texts in it. -/
def asStrings (v : Value) : Option (List String) :=
  if v.truthy then
    match v with
    | .list items => items.mapM asStr
    | _ => Option.none
  else some []

/-- dict(value or {}). -/
def asDict (v : Value) : Option Fields :=
  if v.truthy then
    match v with
    | .dict entries => some entries
    | _ => Option.none
  else some []

def asOptInt : Value → Option (Option Int)
  | .none => some Option.none
  | .int n => some (some n)
  | _ => Option.none

def asOptBool : Value → Option (Option Bool)
  | .none => some Option.none
  | .bool b => some (some b)
  | _ => Option.none

/-- int(value or 0). -/
def asInt : Value → Option Int
  | .none => some 0
  | .bool b => some (if b then 1 else 0)
  | .int n => some n
  | .number x => some (if 0 ≤ x then ⌊x⌋ else ⌈x⌉)
  | _ => Option.none

/-- float(value or 0.0). -/
def asNumber : Value → Option ℚ
  | .none => some 0
  | .bool b => some (if b then 1 else 0)
  | .int n => some n
  | .number x => some x
  | _ => Option.none

def asBoolEntry : String × Value → Option (String × Bool)
  | (name, .bool b) => some (name, b)
  | _ => Option.none

def asStrEntry : String × Value → Option (String × String)
  | (name, .str s) => some (name, s)
  | _ => Option.none

def asDictEntry : String × Value → Option (String × Fields)
  | (name, .dict entries) => some (name, entries)
  | _ => Option.none

end Value

/-- Python's round of a number to a whole one: half to even. -/
def roundHalfEven (x : ℚ) : Int :=
  let low := ⌊x⌋
  if x - low < 1 / 2 then low
  else if 1 / 2 < x - low then low + 1
  else if low % 2 = 0 then low else low + 1

def roundTenth (x : ℚ) : ℚ := roundHalfEven (x * 10) / 10

/-- The profile with all that its dict holds. -/
structure Profile extends TriageProfile where
  dnsHijacked : Bool := false
  l3Phase : FailPhase := .unknown
  stallAtBytes : Option Int := none
  bandwidthThrottled : Bool := false
  readRateBps : ℚ := 0
  voiceOk : Bool := false
  clientHelloLen : Int := 0
  isTlsFingerprintBlocked : Bool := false
  fingerprintPass : List (String × Bool) := []
  domainPhases : List (String × String) := []
  domainReports : List (String × Fields) := []
  autottlDelta : Option Int := none
  echBlocked : Option Bool := none
  httpBlocked : Option Bool := none
  viableHosts : List String := []
  dpiDiag : Fields := []

namespace Profile

def preferQuic (p : Profile) : Bool := p.bandwidthThrottled || (!p.quicDrop && !p.udpBlocked)

def l7ImpersonateSufficient (p : Profile) : Bool := p.isTlsFingerprintBlocked

/-- Every phase is true, as its text is not empty. -/
def toDict (p : Profile) : Fields :=
  [("dns_hijacked", .bool p.dnsHijacked),
    ("dns_sinkhole", .bool p.dnsSinkhole),
    ("unbypassable_l3", .bool p.unbypassableL3),
    ("l3_phase", .str p.l3Phase.value),
    ("handshake_phase", .str p.handshakePhase.value),
    ("rst_at_sni", .bool p.rstAtSni),
    ("silent_drop_after_sni", .bool p.silentDropAfterSni),
    ("stall_phase", .str p.stallPhase.value),
    ("stall_at_bytes", .ofOption .int p.stallAtBytes),
    ("bandwidth_throttled", .bool p.bandwidthThrottled),
    ("read_rate_bps", .number (roundTenth p.readRateBps)),
    ("quic_drop", .bool p.quicDrop),
    ("udp_blocked", .bool p.udpBlocked),
    ("voice_ok", .bool p.voiceOk),
    ("client_hello_len", .int p.clientHelloLen),
    ("is_tls_fingerprint_blocked", .bool p.isTlsFingerprintBlocked),
    ("requires_postquantum_awareness", .bool p.requiresPostquantumAwareness),
    ("fingerprint_pass", .dict (p.fingerprintPass.map (fun e => (e.1, .bool e.2)))),
    ("requires_window_clamp", .bool p.requiresWindowClamp),
    ("prefer_quic", .bool p.preferQuic),
    ("bypassable", .bool p.bypassable),
    ("l7_impersonate_sufficient", .bool p.l7ImpersonateSufficient),
    ("prefer_contextual_split", .bool p.preferContextualSplit),
    ("domain_phases", .dict (p.domainPhases.map (fun e => (e.1, .str e.2)))),
    ("domain_reports", .dict (p.domainReports.map (fun e => (e.1, .dict e.2)))),
    ("viable_foolings", .strings p.viableFoolings),
    ("viable_blobs", .strings p.viableBlobs),
    ("split_mode", .str p.splitMode),
    ("server_hops", .ofOption .int p.serverHops),
    ("dpi_hops", .ofOption .int p.dpiHops),
    ("autottl_delta", .ofOption .int p.autottlDelta),
    ("ech_blocked", .ofOption .bool p.echBlocked),
    ("http_blocked", .ofOption .bool p.httpBlocked),
    ("dead_foolings", .strings p.deadFoolings),
    ("viable_hosts", .strings p.viableHosts),
    ("dpi_diag", .dict p.dpiDiag)]

end Profile

/-- The members that the class statement makes; those of HTTP codes are made on demand. -/
def classMembers : List FailPhase :=
  [.unknown, .other, .pass, .dnsResolve, .dnsTampered, .dnsSinkhole, .l4SynDrop, .l4RstAtSyn, .icmpBlock,
    .ipBlocked, .tlsRstAtSni, .tlsSilentDropAfterSni, .tlsFakeAlert, .tlsHandshakeError, .connectTimeout,
    .connectRefused, .dataStallTlsCert, .dataStallFirstReq, .dataStall7k, .dataStall16k, .dataStall42k,
    .dataStall64kPlus, .delayedRst, .delayedFin, .tlsInjectedAlert, .zeroWindowStall, .h2RstStream,
    .bandwidthThrottled, .quicDrop, .udpBlocked, .httpRedirect, .httpBlocked]

section members

-- _value2member_map_ of the process that decodes
variable (members : List FailPhase)

/-- _fail_phase: a text that is no member yet is not asked of the class. -/
def failPhase : Value → FailPhase
  | .str s => (members.find? (fun phase => decide (phase.value = s))).getD .unknown
  | _ => .unknown

def fromDict (data : Fields) : Option Profile :=
  if data = [] then some {}
  else do
    let clientHelloLen ← (Value.get data "client_hello_len").asInt
    let stallAtBytes ← (Value.get data "stall_at_bytes").asOptInt
    let readRateBps ← (Value.get data "read_rate_bps").asNumber
    let fingerprintPass ← (← (Value.get data "fingerprint_pass").asDict).mapM Value.asBoolEntry
    let domainPhases ← (← (Value.get data "domain_phases").asDict).mapM Value.asStrEntry
    let domainReports ← (← (Value.get data "domain_reports").asDict).mapM Value.asDictEntry
    let viableFoolings ← (Value.get data "viable_foolings").asStrings
    let viableBlobs ← (Value.get data "viable_blobs").asStrings
    let splitMode ← (Value.get data "split_mode").asStrOr
    let serverHops ← (Value.get data "server_hops").asOptInt
    let dpiHops ← (Value.get data "dpi_hops").asOptInt
    let autottlDelta ← (Value.get data "autottl_delta").asOptInt
    let echBlocked ← (Value.get data "ech_blocked").asOptBool
    let httpBlocked ← (Value.get data "http_blocked").asOptBool
    let deadFoolings ← (Value.get data "dead_foolings").asStrings
    let viableHosts ← (Value.get data "viable_hosts").asStrings
    let dpiDiag ← (Value.get data "dpi_diag").asDict
    some {
      dnsHijacked := (Value.get data "dns_hijacked").truthy
      dnsSinkhole := (Value.get data "dns_sinkhole").truthy
      unbypassableL3 := (Value.get data "unbypassable_l3").truthy
      l3Phase := failPhase members (Value.get data "l3_phase")
      handshakePhase := failPhase members (Value.get data "handshake_phase")
      rstAtSni := (Value.get data "rst_at_sni").truthy
      silentDropAfterSni := (Value.get data "silent_drop_after_sni").truthy
      stallPhase := failPhase members (Value.get data "stall_phase")
      stallAtBytes
      bandwidthThrottled := (Value.get data "bandwidth_throttled").truthy
      readRateBps
      quicDrop := (Value.get data "quic_drop").truthy
      udpBlocked := (Value.get data "udp_blocked").truthy
      voiceOk := (Value.get data "voice_ok").truthy
      clientHelloLen
      isTlsFingerprintBlocked := (Value.get data "is_tls_fingerprint_blocked").truthy
      requiresPostquantumAwareness := (Value.get data "requires_postquantum_awareness").truthy
      fingerprintPass, domainPhases, domainReports, viableFoolings, viableBlobs, splitMode, serverHops, dpiHops
      autottlDelta, echBlocked, httpBlocked, deadFoolings, viableHosts, dpiDiag }

end members

end Blockchecks.TriageRecord
