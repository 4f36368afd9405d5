import Blockchecks.Regex
import Blockchecks.StrategyText

namespace Blockchecks.FailPhases

open Regex StrategyText

inductive FailPhase where
  | unknown | other | pass
  | dnsResolve | dnsTampered | dnsSinkhole | l4SynDrop | l4RstAtSyn | icmpBlock | ipBlocked
  | tlsRstAtSni | tlsSilentDropAfterSni | tlsFakeAlert | tlsHandshakeError | connectTimeout
  | connectRefused
  | dataStallTlsCert | dataStallFirstReq | dataStall7k | dataStall16k | dataStall42k
  | dataStall64kPlus
  | delayedRst | delayedFin | tlsInjectedAlert | zeroWindowStall | h2RstStream
  | bandwidthThrottled
  | quicDrop | udpBlocked
  | httpRedirect | httpBlocked
  | httpCode (code : Nat)
  deriving DecidableEq

def FailPhase.value : FailPhase → String
  | .unknown => "unknown"
  | .other => "other"
  | .pass => "pass"
  | .dnsResolve => "dns_resolve"
  | .dnsTampered => "dns_tampered"
  | .dnsSinkhole => "dns_sinkhole"
  | .l4SynDrop => "l4_syn_drop"
  | .l4RstAtSyn => "l4_rst_at_syn"
  | .icmpBlock => "icmp_block"
  | .ipBlocked => "ip_blocked"
  | .tlsRstAtSni => "tls_rst_at_sni"
  | .tlsSilentDropAfterSni => "tls_silent_drop_after_sni"
  | .tlsFakeAlert => "tls_fake_alert"
  | .tlsHandshakeError => "tls_handshake_error"
  | .connectTimeout => "connect_timeout"
  | .connectRefused => "connect_refused"
  | .dataStallTlsCert => "data_stall_tls_cert"
  | .dataStallFirstReq => "data_stall_first_req"
  | .dataStall7k => "data_stall_7k"
  | .dataStall16k => "data_stall_16k"
  | .dataStall42k => "data_stall_42k"
  | .dataStall64kPlus => "data_stall_64k_plus"
  | .delayedRst => "delayed_rst"
  | .delayedFin => "delayed_fin"
  | .tlsInjectedAlert => "tls_injected_alert"
  | .zeroWindowStall => "zero_window_stall"
  | .h2RstStream => "h2_rst_stream"
  | .bandwidthThrottled => "bandwidth_throttled"
  | .quicDrop => "quic_drop"
  | .udpBlocked => "udp_blocked"
  | .httpRedirect => "http_redirect"
  | .httpBlocked => "http_blocked"
  | .httpCode code => "http_" ++ toString code

/-- The member for a code exists only for the three-digit codes from 300 to 599. -/
def httpPhase (code : Int) : Option FailPhase :=
  if 300 ≤ code ∧ code ≤ 599 then some (.httpCode code.toNat) else none

variable (classes : CharClasses)

/-- The ordered table: the first pattern found in the text names the phase. -/
def phasePatterns : List (FailPhase × Pattern) :=
  [(.zeroWindowStall, oneOf [word "zero window", word "window=0", word "rwnd"]),
   (.h2RstStream, oneOf
     [inOrder [word "http/2", anything, word "rst"], inOrder [word "h2", anything, word "stream"],
      word "RST_STREAM"]),
   (.tlsInjectedAlert, oneOf
     [word "tls alert", inOrder [word "fatal", anything, word "alert"],
      inOrder [word "alert", anything, word "fatal"]]),
   (.dataStall64kPlus, oneOf
     [inOrder [word "stall", anything, word "64"], word "stalled at 64", word "reassembly"]),
   (.dataStall42k, oneOf [inOrder [word "stall", anything, word "42"], word "stalled at 42"]),
   (.dataStall16k, oneOf [inOrder [word "stall", anything, word "16"], word "stalled at 16"]),
   (.dataStall7k, oneOf
     [inOrder [word "stall", anything, .wordBoundary, word "7k", .wordBoundary],
      inOrder [.wordBoundary, word "7kb", .wordBoundary],
      inOrder [word "stalled at 7", .notAhead classes.isDigit],
      inOrder [word "stall", anything, .one (fun c => !c.isDigit), word "7",
        .notAhead classes.isDigit, .optional (word "k")]]),
   (.dataStallFirstReq, oneOf
     [inOrder [word "stall", anything, word "first"], word "stalled at first", word "first req"]),
   (.dataStallTlsCert, oneOf
     [inOrder [word "stall", anything, word "cert"], inOrder [word "cert", anything, word "stall"],
      word "stalled at 2"]),
   (.delayedRst, oneOf [word "reset after", word "rst after"]),
   (.delayedFin, oneOf [word "fin after", word "fin_ack", word "fake fin"]),
   (.dnsResolve, oneOf
     [word "Could not resolve", word "Failed to resolve", word "getaddrinfo",
      word "no DoH A record"]),
   (.dnsTampered, oneOf [word "TAMPERED", inOrder [word "dns", anything, word "mismatch"]]),
   (.dnsSinkhole, oneOf
     [word "sinkhole", word "bogon", word "reserved ip", word "198.18.", word "127.0.0.1"]),
   (.connectTimeout, oneOf
     [inOrder [word "time", .optional (word "d"), .optional (word " "), word "out"],
      word "timeout after", word "Operation timed out"]),
   (.connectRefused, oneOf [word "Connection refused", word "ECONNREFUSED"]),
   (.tlsRstAtSni, oneOf
     [word "Recv failure", word "Connection reset", word "ECONNRESET",
      inOrder [.wordBoundary, word "TCP RST", .wordBoundary]]),
   (.tlsSilentDropAfterSni, oneOf [word "no data", word "silent", word "frozen", word "stalled"]),
   (.tlsHandshakeError, oneOf
     [word "SSL routines", word "WRONG_VERSION", word "TLS", word "handshake"]),
   (.httpRedirect, word "suspicious redirect"),
   (.httpBlocked, oneOf [word "403", word "451", word "captcha", word "blocked"]),
   (.ipBlocked, oneOf
     [inOrder [word "IP", anything, word "block"], word "blacklist",
      inOrder [word "110", .wordBoundary]])]

def passHttp : List Int := [200, 204, 206, 401, 403, 404]

def phaseOfText (error : String) : FailPhase :=
  match (phasePatterns classes).find? (fun entry => search classes entry.2 error) with
  | some (phase, _) => phase
  | none => .other

/-- None when the code has no phase: building the member raises. -/
def classifyFailPhase (error : String) (httpCode : Int) : Option FailPhase :=
  if error = "" then
    if httpCode ∈ passHttp then some .pass
    else if httpCode ≠ 0 then httpPhase httpCode
    else some .unknown
  else some (phaseOfText classes error)

def infraErrorMarkers : List String :=
  ["dev/shm", "Permission denied", "ns pool exhausted", "stopped before probe",
    "batch probe loop failed"]

def infraFailPhases : List FailPhase := [.connectTimeout]

def isInfraFailPhase (failPhase error : String) : Bool :=
  infraErrorMarkers.any (fun marker => contains error.toList marker) ||
    infraFailPhases.any (fun phase => (strip failPhase.toList).map Char.toLower == phase.value.toList)

theorem classifyFailPhase_of_text {error : String} (h : error ≠ "") (httpCode : Int) :
    classifyFailPhase classes error httpCode = some (phaseOfText classes error) :=
  if_neg h

end Blockchecks.FailPhases

namespace Blockchecks.TriageProfiles

open FailPhases

/-- The interference profile of the preflight probes, with the fields that the family
registry, the blob filter and the weights read. -/
structure TriageProfile where
  dnsSinkhole : Bool := false
  unbypassableL3 : Bool := false
  handshakePhase : FailPhase := .unknown
  rstAtSni : Bool := false
  silentDropAfterSni : Bool := false
  stallPhase : FailPhase := .unknown
  quicDrop : Bool := false
  udpBlocked : Bool := false
  requiresPostquantumAwareness : Bool := false
  viableFoolings : List String := []
  viableBlobs : List String := []
  splitMode : String := ""
  serverHops : Option Int := none
  dpiHops : Option Int := none
  deadFoolings : List String := []

namespace TriageProfile

def requiresWindowClamp (profile : TriageProfile) : Bool :=
  decide (profile.stallPhase ∈ [FailPhase.dataStall7k, .dataStall16k, .dataStall42k, .dataStall64kPlus,
    .dataStallFirstReq, .dataStallTlsCert, .zeroWindowStall])

def bypassable (profile : TriageProfile) : Bool := !profile.unbypassableL3 && !profile.dnsSinkhole

def preferContextualSplit (profile : TriageProfile) : Bool := profile.requiresPostquantumAwareness

end TriageProfile

end Blockchecks.TriageProfiles
