import Blockchecks.CurlProbe
import Blockchecks.ProbeLogger
import Blockchecks.BatchPairing

namespace Blockchecks.ProbeChecks

open StrategyText Results BridgeIpc BatchService CurlProbe RunStore ProbeLogger

variable (lib : TextLib) (config : Repeats)

def isGooglevideoDomain (domain : String) : Bool := contains (lower domain) "googlevideo"

def hostPart (domain : String) : List Char := (lower domain).takeWhile (· ≠ '/')

def youtubeHosts : List String :=
  ["youtube.com", "youtu.be", "googlevideo.com", "ytimg.com", "ggpht.com", "gvt1.com",
    "youtubeusercontent.com", "googleusercontent.com"]

/-- The regular expression asks for a whole run of labels, dots or ends around it. -/
def isYoutubeDomain (domain : String) : Bool :=
  youtubeHosts.any (fun host => contains ('.' :: hostPart domain ++ ['.']) ("." ++ host ++ "."))

def isYtcdnDomain (domain : String) : Bool :=
  isYoutubeDomain domain && !contains (hostPart domain) "googlevideo" &&
    !contains (hostPart domain) "youtube.com" && hostPart domain != "youtu.be".toList

inductive Http3Exchange where
  | response (status contentLength : Int) (location : String) (wall : ℚ)
  | failed (error : String) (wall : ℚ)
  | subprocessFailed (error : String)

def quicSubprocessResult (domain : String) : Http3Exchange → ProbeData
  | .response status contentLength location wall =>
      let answer : ProbeData :=
        { httpCode := status, latencyMs := wall * 1000, contentLen := contentLength
          resolveName := String.ofList (domain.toList.takeWhile (· ≠ '/')) }
      match classifyHttpStatus lib domain status location with
      | some e => { answer with error := e }
      | none =>
          if 200 ≤ status ∧ status < 400 then { answer with success := true }
          else { answer with error := "http " ++ toString status }
  | .failed error wall =>
      { error := error, latencyMs := wall * 1000
        resolveName := String.ofList (domain.toList.takeWhile (· ≠ '/')) }
  | .subprocessFailed error => failDict error

/-- What the probes of one call meet outside: the prepared requests for video
and static hosts (none when there is no fresh video URL), the worker, the HTTP/3
exchange and the events that the bridge wrote. -/
structure BridgeProbe where
  googlevideo : Option CurlProbeRequest
  ytcdn : CurlProbeRequest
  worker : Worker
  http3 : Http3Exchange
  events : List BridgeEvent

def gvUrlUnavailable : ProbeData := failDict "gv_url_unavailable"

def eventName : EventKind → String
  | .applied => "APPLIED"
  | .strategyFail => "STRATEGY_FAIL"

def bridgeKeys (gen : Nat) (events : List BridgeEvent) : BridgeKeys where
  gen := gen
  events := events.map (fun e => eventName e.event)
  applied := bridgeApplied events
  rstIn := events.any BridgeEvent.isRstIn
  rstInTtl := (((events.filter BridgeEvent.isRstIn).map (·.ttl)).foldl max 0 : Nat)

def attachBridgeVerdict (data : ProbeData) (gen : Nat) (events : List BridgeEvent) : ProbeData :=
  { data with bridge := some (bridgeKeys gen events) }

def plainRequest (domain : String) (timeout : ℚ) (resolvedIp : Option String) (disableEch : Bool)
    (protocol : String) : CurlProbeRequest where
  domain := domain
  timeout := timeout
  resolvedIp := resolvedIp
  resolveName := some (String.ofList (domain.toList.takeWhile (· ≠ '/')))
  disableEch := disableEch
  protocol := protocol

def ipsToTry (resolvedIp : Option String) (resolvedIps : List String) : List (Option String) :=
  let ips := match nonempty resolvedIp with
    | some ip => if ip ∈ resolvedIps then resolvedIps else ip :: resolvedIps
    | none => resolvedIps
  if ips = [] then [none] else ips.map some

def runTcpCheckBridge (disableEch : Bool) (probe : BridgeProbe) (call : BridgeCall) : ProbeData :=
  let curl (req : CurlProbeRequest) : ProbeData :=
    let ip := ((ipsToTry req.resolvedIp call.resolvedIps).head?).join
    let data := invokeCurlProbeWorker lib config probe.worker
      { req with timeout := call.timeout, resolvedIp := ip }
    attachBridgeVerdict { data with usedIp := ip.getD "" } call.gen probe.events
  if call.protocol = "quic" then
    attachBridgeVerdict (quicSubprocessResult lib call.domain probe.http3) call.gen probe.events
  else if call.protocol ≠ "http" ∧ isGooglevideoDomain call.domain then
    match probe.googlevideo with
    | none => gvUrlUnavailable
    | some req => curl req
  else if call.protocol ≠ "http" ∧ isYtcdnDomain call.domain then curl probe.ytcdn
  else curl (plainRequest call.domain call.timeout call.resolvedIp disableEch call.protocol)

/-- What one one-shot check meets: the requests it tries in order, the worker of
each try, or the exception that ends it before any try. -/
structure OneshotCheck where
  raised : Option String := none
  googlevideo : Option CurlProbeRequest
  ytcdnVariants : List CurlProbeRequest
  worker : CurlProbeRequest → Worker

/-- The first success, else the last answer. -/
def firstSuccess : List ProbeData → ProbeData
  | [] => {}
  | [data] => data
  | data :: rest => if data.success then data else firstSuccess rest

/-- Every candidate request against every address, later addresses with less time. -/
def tryCandidates (timeout retryIpTimeout : ℚ) (resolvedIps : List String) (check : OneshotCheck)
    (candidates : List CurlProbeRequest) (resolvedIp : Option String) : Except String ProbeData :=
  match check.raised with
  | some e => .error e
  | none => .ok (firstSuccess (candidates.flatMap (fun variant =>
      (ipsToTry resolvedIp resolvedIps).zipIdx.map (fun (ip, attempt) =>
        let req := { variant with
          resolvedIp := ip
          timeout := if attempt = 0 then timeout else min timeout retryIpTimeout }
        { invokeCurlProbeWorker lib config (check.worker req) req with usedIp := ip.getD "" }))))

def runTcpCheck (item : StrategyItem) (domain : String) (timeout retryIpTimeout : ℚ)
    (disableEch : Bool) (resolvedIp : Option String) (resolvedIps : List String)
    (check : OneshotCheck) : Except String ProbeData :=
  let protocol := orElse item.protocol "tls12"
  let curl := tryCandidates lib config timeout retryIpTimeout resolvedIps check
  if protocol ≠ "http" ∧ isGooglevideoDomain domain then
    match check.googlevideo with
    | none => .ok gvUrlUnavailable
    | some req => curl [req] req.resolvedIp
  else if protocol ≠ "http" ∧ isYtcdnDomain domain then
    match check.ytcdnVariants with
    | [] => .ok { error := "no ytcdn variants" }
    | req :: rest => curl (req :: rest) req.resolvedIp
  else curl [plainRequest domain timeout resolvedIp disableEch protocol] resolvedIp

def shouldRetry (data : ProbeData) (tryWssize : Bool) (item : StrategyItem) : Bool :=
  !data.success && tryWssize && decide (orElse item.protocol "tls12" = "tls12") && !item.isConfig &&
    !contains item.strategy.toList "wssize"

/-- The log call of a probe returns, or raises before or after the row is kept. -/
inductive Logging where
  | written
  | raised (error : String) (kept : Bool)

structure Oneshot where
  secureDns : Bool
  dns : DnsMeta
  resolvedIps : List String
  acquired : Bool
  timeout : ℚ
  retryIpTimeout : ℚ
  wssizeTimeout : ℚ
  disableEch : Bool
  tryWssize : Bool
  check : OneshotCheck
  wssizeCheck : OneshotCheck
  logging : Logging

def oneshotResult (item : StrategyItem) (domain : String) (data : ProbeData) : TcpTestResult where
  item := item
  domain := domain
  success := data.success
  httpCode := data.httpCode
  latencyMs := data.latencyMs
  contentLength := data.contentLen
  contentValid := data.contentOk
  throttled := data.throttled
  readRateBps := data.readRateBps
  usedIp := data.usedIp
  probeHost := data.resolveName
  error := data.error

def checkWithRetry (call : Oneshot) (item : StrategyItem) (domain : String) : Except String ProbeData := do
  let data ← runTcpCheck lib config item domain call.timeout call.retryIpTimeout call.disableEch
    call.dns.ip call.resolvedIps call.check
  if shouldRetry data call.tryWssize item then
    runTcpCheck lib config item domain (min call.timeout call.wssizeTimeout) call.retryIpTimeout
      call.disableEch call.dns.ip call.resolvedIps call.wssizeCheck
  else return data

/-- The result that test_tcp returns and the row it has logged; none when the
call itself raises. An exception after the check only replaces the error text. -/
def testTcp (call : Oneshot) (item : StrategyItem) (domain : String) :
    Option (TcpTestResult × Option TcpEntry) :=
  let entry (result : TcpTestResult) := logTcpCampaign item domain result .oneshot call.dns
  if call.secureDns && call.dns.noAddress then
    let result : TcpTestResult :=
      { item := item, domain := domain, error := dnsNodataSkip, failPhase := "dns_resolve" }
    match call.logging with
    | .written => some (result, some (entry result))
    | .raised _ _ => none
  else if !call.acquired then none
  else match checkWithRetry lib config call item domain with
    | .error e => some ({ item := item, domain := domain, error := head 200 e }, none)
    | .ok data =>
        let result := oneshotResult item domain data
        match call.logging with
        | .written => some (result, some (entry result))
        | .raised e kept =>
            some ({ result with error := head 200 e }, if kept then some (entry result) else none)

theorem coherent_of_failed {data : ProbeData} (hs : data.success = false) (ht : data.throttled = false) :
    Coherent data where
  success_of_throttled h := by simp [ht] at h
  error_of_success h := by simp [hs] at h

theorem quicSubprocessResult_coherent (domain : String) (exchange : Http3Exchange) :
    Coherent (quicSubprocessResult lib domain exchange) := by
  cases exchange with
  | response status contentLength location wall =>
      rw [quicSubprocessResult]
      dsimp only
      split
      · exact coherent_of_failed rfl rfl
      split
      · exact ⟨fun h => absurd h Bool.false_ne_true, fun _ => rfl⟩
      · exact coherent_of_failed rfl rfl
  | failed error wall => exact coherent_of_failed rfl rfl
  | subprocessFailed error => exact coherent_of_failed rfl rfl

/-- A check through the bridge that succeeds carries the bridge's verdict. -/
theorem runTcpCheckBridge_spec (disableEch : Bool) (probe : BridgeProbe) (call : BridgeCall) :
    Coherent (runTcpCheckBridge lib config disableEch probe call) ∧
      ((runTcpCheckBridge lib config disableEch probe call).success = true →
        (runTcpCheckBridge lib config disableEch probe call).bridge ≠ none) := by
  have hattached {data : ProbeData} (h : Coherent data) (usedIp : String) :
      Coherent (attachBridgeVerdict { data with usedIp := usedIp } call.gen probe.events) ∧
        ((attachBridgeVerdict { data with usedIp := usedIp } call.gen probe.events).success = true →
          (attachBridgeVerdict { data with usedIp := usedIp } call.gen probe.events).bridge ≠ none) :=
    ⟨⟨h.success_of_throttled, h.error_of_success⟩, fun _ => Option.some_ne_none _⟩
  have hcurl (req : CurlProbeRequest) :=
    hattached (invokeCurlProbeWorker_coherent lib config probe.worker req)
  rw [runTcpCheckBridge]
  dsimp only
  split
  · exact hattached (quicSubprocessResult_coherent lib call.domain probe.http3)
      (quicSubprocessResult lib call.domain probe.http3).usedIp
  split
  · split
    · exact ⟨coherent_of_failed rfl rfl, fun h => absurd h Bool.false_ne_true⟩
    · exact hcurl _ _
  split
  · exact hcurl _ _
  · exact hcurl _ _

theorem firstSuccess_spec {P : ProbeData → Prop} (hd : P {}) {answers : List ProbeData}
    (h : ∀ data ∈ answers, P data) : P (firstSuccess answers) := by
  induction answers with
  | nil => exact hd
  | cons data rest ih =>
      have hrest := ih (fun d hd' => h d (List.mem_cons_of_mem _ hd'))
      cases rest with
      | nil => exact h data List.mem_cons_self
      | cons next rest =>
          rw [firstSuccess]
          · split_ifs
            · exact h data List.mem_cons_self
            · exact hrest
          · exact List.cons_ne_nil _ _

theorem tryCandidates_coherent {timeout retryIpTimeout : ℚ} {resolvedIps : List String}
    {check : OneshotCheck} {candidates : List CurlProbeRequest} {resolvedIp : Option String}
    {data : ProbeData} (h : tryCandidates lib config timeout retryIpTimeout resolvedIps check candidates
      resolvedIp = .ok data) : Coherent data := by
  rw [tryCandidates] at h
  split at h
  · cases h
  · obtain rfl := Except.ok.inj h
    apply firstSuccess_spec (coherent_of_failed rfl rfl)
    intro data hdata
    obtain ⟨variant, _, hdata⟩ := List.mem_flatMap.mp hdata
    obtain ⟨p, _, rfl⟩ := List.mem_map.mp hdata
    have hworker := invokeCurlProbeWorker_coherent lib config
    exact ⟨(hworker _ _).success_of_throttled, (hworker _ _).error_of_success⟩

theorem runTcpCheck_coherent {item : StrategyItem} {domain : String} {timeout retryIpTimeout : ℚ}
    {disableEch : Bool} {resolvedIp : Option String} {resolvedIps : List String} {check : OneshotCheck}
    {data : ProbeData} (h : runTcpCheck lib config item domain timeout retryIpTimeout disableEch resolvedIp
      resolvedIps check = .ok data) : Coherent data := by
  rw [runTcpCheck] at h
  split_ifs at h
  · split at h
    · obtain rfl := Except.ok.inj h
      exact coherent_of_failed rfl rfl
    · exact tryCandidates_coherent lib config h
  · split at h
    · obtain rfl := Except.ok.inj h
      exact coherent_of_failed rfl rfl
    · exact tryCandidates_coherent lib config h
  · exact tryCandidates_coherent lib config h

theorem checkWithRetry_coherent {call : Oneshot} {item : StrategyItem} {domain : String}
    {data : ProbeData} (h : checkWithRetry lib config call item domain = .ok data) : Coherent data := by
  rw [checkWithRetry] at h
  obtain ⟨first, hfirst, h⟩ := BatchPairing.ok_of_bind h
  split at h
  · exact runTcpCheck_coherent lib config h
  · obtain rfl := Except.ok.inj h
    exact runTcpCheck_coherent lib config hfirst

end Blockchecks.ProbeChecks
