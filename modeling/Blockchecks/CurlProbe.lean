import Blockchecks.BatchService
import Blockchecks.BridgeIpc
import Mathlib.Algebra.Order.Field.Rat

namespace Blockchecks.CurlProbe

open StrategyText BatchService

/-- Standard library functions on texts: host name (lowercase) and path of a
parsed URL, and the quoted form of a text. -/
structure TextLib where
  hostname : String → String
  path : String → String
  repr : String → String

structure CurlProbeRequest where
  domain : String
  timeout : ℚ := 5
  resolvedIp : Option String := none
  resolveName : Option String := none
  curlUrl : Option String := none
  disableEch : Bool := false
  googlevideo : Bool := false
  ggc : Bool := false
  ytcdn : Bool := false
  ytcdnProxy : Bool := false
  ytcdnBare : Bool := false
  protocol : String := "tls12"

structure CurlProbeResult where
  resolveName : String := ""
  success : Bool := false
  httpCode : Int := 0
  latencyMs : ℚ := 0
  contentLen : Int := 0
  contentOk : Bool := false
  throttled : Bool := false
  readRateBps : ℚ := 0
  error : Option String := none
  deriving DecidableEq

/-- One answer of the server; the bytes of the body are read as characters. -/
structure Response where
  statusCode : Int
  content : List Char
  location : String := ""
  server : String := ""
  contentType : String := ""

inductive Exchange where
  | response (resp : Response) (wall : ℚ)
  | requestsError (text : String) (wall : ℚ)
  | otherError (text : String)

variable (lib : TextLib)

def head (n : Nat) (text : String) : String := String.ofList (text.toList.take n)

def rstripDots (text : List Char) : List Char := (text.reverse.dropWhile (· == '.')).reverse

def redirectStatuses : List Int := [301, 302, 303, 307, 308]

def redirectHostname (location : String) : List Char :=
  let loc := strip location.toList
  if contains loc "://" || startsWith loc "//" then
    rstripDots (lower (lib.hostname (String.ofList loc)))
  else []

def discordFamilyApexes : List String :=
  ["discord.com", "discord.gg", "discordapp.com", "discordapp.net", "discordcdn.com", "discord.media"]

def googleFamilyApexes : List String :=
  ["google.com", "accounts.google.com", "youtube.com", "youtu.be", "googlevideo.com", "googleapis.com"]

def underApex (host apex : List Char) : Bool := host == apex || ('.' :: apex).isSuffixOf host

def inHostFamily (host : List Char) (apexes : List String) : Bool :=
  apexes.any (fun apex => underApex host apex.toList)

def hostsRelated (h d : List Char) : Bool :=
  if h.isEmpty || d.isEmpty then false
  else if inHostFamily h discordFamilyApexes && inHostFamily d discordFamilyApexes then true
  else if inHostFamily h googleFamilyApexes && inHostFamily d googleFamilyApexes then true
  else underApex h d || underApex d h

def isSuspiciousRedirect (domain : String) (status : Int) (location : String) : Bool :=
  if status ∉ redirectStatuses ∨ location = "" then false
  else if (redirectHostname lib location).isEmpty then false
  else
    let dom := rstripDots (((lower domain).takeWhile (· ≠ '/')).takeWhile (· ≠ ':'))
    !hostsRelated (redirectHostname lib location) dom

def classifyHttpStatus (domain : String) (status : Int) (location : String) : Option String :=
  if isSuspiciousRedirect lib domain status location then
    some ("suspicious redirect " ++ toString status ++ " to " ++ head 80 location)
  else if status = 400 then some "http 400 (likely fake packets received)"
  else none

def ggcRedirectIsGoogle (location : String) : Bool :=
  if location = "" then false
  else
    let host := lower (lib.hostname location)
    underApex host "googlevideo.com".toList || underApex host "google.com".toList

def googlevideoFollowRequest (req : CurlProbeRequest) (location : String) :
    Option CurlProbeRequest :=
  if location = "" ∨ contains (lower location) "googlevideo.com" = false then none
  else
    let target := if startsWith location.toList "http" then location else "https://" ++ location
    let host := String.ofList (lower (lib.hostname target))
    if contains host.toList "googlevideo" then
      some { domain := req.domain, timeout := req.timeout, resolvedIp := req.resolvedIp,
             resolveName := some host, curlUrl := some target, disableEch := req.disableEch,
             googlevideo := true, protocol := req.protocol }
    else none

def blockPathTokens : List String := ["block", "blocked", "blockpage", "forbidden", "stop", "error"]

def locationIsBlockpage (location : String) : Bool :=
  let raw := String.ofList (strip location.toList)
  if raw = "" then false
  else
    let raw := if contains raw.toList "://" || startsWith raw.toList "//" then raw
      else "https://x" ++ (if startsWith raw.toList "/" then raw else "/" ++ raw)
    let path := lower (lib.path raw)
    contains path "blockpage" ||
      (path.splitOn '/').any (fun segment => blockPathTokens.any (·.toList == segment))

def blockRedirectErr (status : Int) (location : String) : Option String :=
  if status ∉ redirectStatuses then none
  else if locationIsBlockpage lib location then
    some ("blockpage redirect " ++ toString status ++ " to " ++ head 80 location)
  else none

def minReadRateBps : ℚ := 500

def throttledMaxBps : ℚ := 256000

def handshakeBudgetSec : ℚ := 2

def throttleMinBody : Nat := 16 * 1024

structure Throughput where
  rateOk : Bool
  throttled : Bool
  rate : ℚ

def classifyThroughput (clen : Nat) (elapsed : ℚ) (smallBodyOk : Bool) : Throughput :=
  let rate := clen / max elapsed (1 / 1000)
  if smallBodyOk then ⟨true, false, rate⟩
  else if rate < minReadRateBps ∧ handshakeBudgetSec ≤ elapsed then ⟨false, false, rate⟩
  else if clen < throttleMinBody then ⟨true, false, rate⟩
  else if rate < minReadRateBps then ⟨false, false, rate⟩
  else ⟨true, decide (rate < throttledMaxBps), rate⟩

def stubBodyErr (req : CurlProbeRequest) (resp : Response) (clen : Nat) : Option String :=
  if resp.statusCode = 304 ∧ req.googlevideo = false then
    some "http 304 without conditional request (likely stub)"
  else if (req.googlevideo || req.ytcdn || req.ggc) ∧ resp.statusCode = 200 then
    let ctype := lower resp.contentType
    if contains ctype "html" ∨ ctype = [] ∧ clen < 300 then
      some "text/html or empty content on binary-API probe"
    else none
  else none

def respFail (resp : Response) (elapsed : ℚ) (clen : Nat) (rate : ℚ) (error : String) :
    CurlProbeResult where
  httpCode := resp.statusCode
  latencyMs := elapsed * 1000
  contentLen := clen
  readRateBps := rate
  error := some error

def googleServerHints : List String := ["gws", "scone", "gvs", "sffe", "fife", "bandaid"]

def classifyGoogleCdn (req : CurlProbeRequest) (resp : Response) (clen : Nat) (elapsed : ℚ) :
    Option CurlProbeResult :=
  if !(req.ggc || req.ytcdn) then none
  else
    let rate := clen / elapsed
    let googleServer := googleServerHints.any (contains (lower resp.server))
    if req.ggc ∧ resp.statusCode ∈ redirectStatuses ∧ ggcRedirectIsGoogle lib resp.location = false then
      some (respFail resp elapsed clen rate ("tspu redirect to " ++ head 80 resp.location))
    else if !googleServer then
      some (respFail resp elapsed clen rate
        ("non-google server header: " ++ lib.repr (head 40 resp.server)))
    else
      let throughput := classifyThroughput clen elapsed (decide (clen < 300))
      some { success := true, httpCode := resp.statusCode, latencyMs := elapsed * 1000,
             contentLen := clen, contentOk := decide (300 ≤ clen), throttled := throughput.throttled,
             readRateBps := throughput.rate }

def dpiFakePatterns : List String :=
  ["roskomnadzor", "rkn.gov.ru", "blockpage", "utmblock", "eais", "warning.rt.ru"]

def smallBodyStatuses : List Int := [101, 204, 206, 301, 302, 303, 307, 308]

def tlsBypassProofStatuses : List Int := [401, 403, 404]

def classifyGeneric (req : CurlProbeRequest) (resp : Response) (elapsed : ℚ) (clen : Nat)
    (redirectErr : Option String) : CurlProbeResult :=
  let rate := clen / elapsed
  match redirectErr with
  | some e => respFail resp elapsed clen rate e
  | none => match blockRedirectErr lib resp.statusCode resp.location with
    | some e => respFail resp elapsed clen rate e
    | none =>
      if resp.statusCode = 400 then
        respFail resp elapsed clen rate "http 400 (likely fake packets received)"
      else
        let body := (resp.content.take 4096).map Char.toLower
        let dpiFake := dpiFakePatterns.any (contains body)
        let contentOk := decide (300 ≤ clen) && !dpiFake
        match stubBodyErr req resp clen with
        | some e => respFail resp elapsed clen rate e
        | none =>
          let small206 := decide (resp.statusCode = 206 ∧ clen < 300) && !req.googlevideo
          let tlsBypassProof := decide (req.protocol ≠ "http" ∧ resp.statusCode ∈ tlsBypassProofStatuses)
          let smallBodyOk := !dpiFake &&
            (decide (resp.statusCode ∈ smallBodyStatuses) || small206 || tlsBypassProof)
          let statusOk := decide (200 ≤ resp.statusCode ∧ resp.statusCode < 400) || tlsBypassProof
          let throughput :=
            if statusOk && (contentOk || smallBodyOk) && !dpiFake then
              classifyThroughput clen elapsed smallBodyOk
            else ⟨false, false, rate⟩
          { success := throughput.rateOk, httpCode := resp.statusCode, latencyMs := elapsed * 1000,
            contentLen := clen, contentOk := contentOk, throttled := throughput.throttled,
            readRateBps := throughput.rate }

def nonempty (text : Option String) : Option String := text.filter (· ≠ "")

def resolveHost (req : CurlProbeRequest) : String :=
  String.ofList (((nonempty req.resolveName).getD req.domain).toList.takeWhile (· ≠ '/'))

/-- A first answer that redirects inside googlevideo is followed once. -/
def classifyResponse (hop : Nat) (followed : CurlProbeRequest → CurlProbeResult)
    (req : CurlProbeRequest) (resp : Response) (wall : ℚ) : CurlProbeResult :=
  let elapsed := max wall (1 / 1000)
  let clen := resp.content.length
  match classifyGoogleCdn lib req resp clen elapsed with
  | some cdn => cdn
  | none =>
      let redirectDomain := if req.googlevideo then "googlevideo.com"
        else String.ofList (lower (resolveHost req))
      let redirectErr := classifyHttpStatus lib redirectDomain resp.statusCode resp.location
      let follow :=
        if req.googlevideo ∧ hop = 0 ∧ resp.statusCode ∈ redirectStatuses ∧ redirectErr = none then
          googlevideoFollowRequest lib req resp.location
        else none
      match follow with
      | some next => followed next
      | none => classifyGeneric lib req resp elapsed clen redirectErr

def finishProbe (req : CurlProbeRequest) (res : CurlProbeResult) : CurlProbeResult :=
  if res.resolveName = "" then { res with resolveName := req.resolveName.getD "" } else res

def probeWithSession (hop : Nat) (followed : CurlProbeRequest → CurlProbeResult)
    (req : CurlProbeRequest) : Exchange → CurlProbeResult
  | .requestsError text wall =>
      finishProbe req { latencyMs := wall * 1000
                        error := some (if contains text.toList "Timeout" then "timeout" else head 120 text) }
  | .otherError text => finishProbe req { error := some (head 120 text) }
  | .response resp wall => finishProbe req (classifyResponse lib hop followed req resp wall)

/-- One attempt, with what the transport does at each hop. -/
def runCurlProbe (get : Nat → CurlProbeRequest → Exchange) (req : CurlProbeRequest) : CurlProbeResult :=
  probeWithSession lib 0 (fun next => probeWithSession lib 1 (fun _ => {}) next (get 1 next)) req (get 0 req)

structure Repeats where
  repeats : Int := 1
  parallelRepeats : Bool := false
  stable : Bool := false
  quickBreak : Bool := false

def clampRepeats (n : Int) : Nat := (max 1 (min 10 n)).toNat

/-- The loop over the attempts in the order in which they end; the default is
what is returned when there was none. -/
def pickAttempt (stable quickBreak : Bool) (default : CurlProbeResult) :
    Option CurlProbeResult → Option CurlProbeResult → List CurlProbeResult → CurlProbeResult
  | firstPass, last, [] => firstPass.getD (last.getD default)
  | firstPass, _, result :: rest =>
      if result.success then
        if !stable then result
        else pickAttempt stable quickBreak default (some (firstPass.getD result)) (some result) rest
      else if quickBreak then firstPass.getD result
      else pickAttempt stable quickBreak default firstPass (some result) rest

def runCurlProbeWithRepeats (config : Repeats) (get : Nat → Nat → CurlProbeRequest → Exchange)
    (req : CurlProbeRequest) : CurlProbeResult :=
  let n := clampRepeats config.repeats
  let attempts := (List.range n).map (fun i => runCurlProbe lib (get i) req)
  if config.parallelRepeats ∧ 1 < n then
    pickAttempt config.stable false { error := some "all parallel repeats failed" } none none attempts
  else pickAttempt config.stable config.quickBreak {} none none attempts

def asDict (r : CurlProbeResult) : ProbeData where
  success := r.success
  httpCode := r.httpCode
  latencyMs := r.latencyMs
  contentLen := r.contentLen
  contentOk := r.contentOk
  throttled := r.throttled
  readRateBps := r.readRateBps
  error := r.error.getD ""
  resolveName := r.resolveName

def failDict (error : String) : ProbeData where
  contentOk := false
  error := error

/-- The worker in the namespace answers, or its process or pipe fails with a text. -/
inductive Worker where
  | answers (get : Nat → Nat → CurlProbeRequest → Exchange)
  | fails (error : String)

def invokeCurlProbeWorker (config : Repeats) (worker : Worker) (req : CurlProbeRequest) : ProbeData :=
  match worker with
  | .answers get => asDict (runCurlProbeWithRepeats lib config get req)
  | .fails error => failDict error

/-- A slow answer counts as a success, and a success has no error text. -/
structure Coherent (data : ProbeData) : Prop where
  success_of_throttled : data.throttled = true → data.success = true
  error_of_success : data.success = true → data.error = ""

structure CoherentResult (r : CurlProbeResult) : Prop where
  success_of_throttled : r.throttled = true → r.success = true
  error_of_success : r.success = true → r.error = none

theorem classifyThroughput_rateOk {clen : Nat} {elapsed : ℚ} {smallBodyOk : Bool}
    (h : (classifyThroughput clen elapsed smallBodyOk).throttled = true) :
    (classifyThroughput clen elapsed smallBodyOk).rateOk = true := by
  rw [classifyThroughput] at h ⊢
  split_ifs at h ⊢ with h1 h2 h3 h4
  rfl

theorem coherent_of_failed {r : CurlProbeResult} (hs : r.success = false) (ht : r.throttled = false) :
    CoherentResult r where
  success_of_throttled h := by simp [ht] at h
  error_of_success h := by simp [hs] at h

theorem respFail_coherent (resp : Response) (elapsed : ℚ) (clen : Nat) (rate : ℚ) (error : String) :
    CoherentResult (respFail resp elapsed clen rate error) :=
  coherent_of_failed rfl rfl

theorem classifyGoogleCdn_coherent {req : CurlProbeRequest} {resp : Response} {clen : Nat} {elapsed : ℚ}
    {r : CurlProbeResult} (h : classifyGoogleCdn lib req resp clen elapsed = some r) :
    CoherentResult r := by
  rw [classifyGoogleCdn] at h
  dsimp only at h
  split_ifs at h
  · obtain rfl := Option.some.inj h
    exact respFail_coherent ..
  · obtain rfl := Option.some.inj h
    exact respFail_coherent ..
  · obtain rfl := Option.some.inj h
    exact ⟨fun _ => rfl, fun _ => rfl⟩

theorem classifyGeneric_coherent (req : CurlProbeRequest) (resp : Response) (elapsed : ℚ) (clen : Nat)
    (redirectErr : Option String) :
    CoherentResult (classifyGeneric lib req resp elapsed clen redirectErr) := by
  rw [classifyGeneric.eq_def]
  dsimp only
  split
  · exact respFail_coherent ..
  split
  · exact respFail_coherent ..
  split
  · exact respFail_coherent ..
  split
  · exact respFail_coherent ..
  refine ⟨?_, fun _ => rfl⟩
  split_ifs
  · exact classifyThroughput_rateOk
  · exact fun h => absurd h (by simp)

theorem classifyResponse_coherent (hop : Nat) {followed : CurlProbeRequest → CurlProbeResult}
    (hf : ∀ next, CoherentResult (followed next)) (req : CurlProbeRequest) (resp : Response) (wall : ℚ) :
    CoherentResult (classifyResponse lib hop followed req resp wall) := by
  rw [classifyResponse]
  dsimp only
  split
  next h => exact classifyGoogleCdn_coherent lib h
  split
  · exact hf _
  · exact classifyGeneric_coherent ..

theorem finishProbe_coherent {req : CurlProbeRequest} {r : CurlProbeResult} (h : CoherentResult r) :
    CoherentResult (finishProbe req r) := by
  rw [finishProbe]
  split
  · exact ⟨h.success_of_throttled, h.error_of_success⟩
  · exact h

theorem probeWithSession_coherent (hop : Nat) {followed : CurlProbeRequest → CurlProbeResult}
    (hf : ∀ next, CoherentResult (followed next)) (req : CurlProbeRequest) (exchange : Exchange) :
    CoherentResult (probeWithSession lib hop followed req exchange) := by
  cases exchange with
  | requestsError text wall => exact finishProbe_coherent (coherent_of_failed rfl rfl)
  | otherError text => exact finishProbe_coherent (coherent_of_failed rfl rfl)
  | response resp wall => exact finishProbe_coherent (classifyResponse_coherent lib hop hf req resp wall)

theorem runCurlProbe_coherent (get : Nat → CurlProbeRequest → Exchange) (req : CurlProbeRequest) :
    CoherentResult (runCurlProbe lib get req) := by
  apply probeWithSession_coherent
  intro next
  apply probeWithSession_coherent
  exact fun _ => coherent_of_failed rfl rfl

/-- Whatever the loop picks is one of the attempts, or the default. -/
theorem pickAttempt_spec {P : CurlProbeResult → Prop} (stable quickBreak : Bool)
    {default : CurlProbeResult} (hd : P default) {attempts : List CurlProbeResult}
    (h : ∀ r ∈ attempts, P r) {firstPass last : Option CurlProbeResult}
    (hfirst : ∀ r ∈ firstPass, P r) (hlast : ∀ r ∈ last, P r) :
    P (pickAttempt stable quickBreak default firstPass last attempts) := by
  have getD {o : Option CurlProbeResult} {r : CurlProbeResult} (ho : ∀ r ∈ o, P r) (hr : P r) :
      P (o.getD r) := by
    cases o with
    | none => exact hr
    | some r' => exact ho r' rfl
  have only {r : CurlProbeResult} (hr : P r) : ∀ r' ∈ some r, P r' := by
    intro r' h'
    exact Option.some.inj h' ▸ hr
  induction attempts generalizing firstPass last with
  | nil => exact getD hfirst (getD hlast hd)
  | cons r rest ih =>
      have hr : P r := h r List.mem_cons_self
      have hrest : ∀ r' ∈ rest, P r' := fun r' h' => h r' (List.mem_cons_of_mem _ h')
      rw [pickAttempt]
      split_ifs
      · exact hr
      · exact ih hrest (only (getD hfirst hr)) (only hr)
      · exact getD hfirst hr
      · exact ih hrest hfirst (only hr)

theorem runCurlProbeWithRepeats_coherent (config : Repeats)
    (get : Nat → Nat → CurlProbeRequest → Exchange) (req : CurlProbeRequest) :
    CoherentResult (runCurlProbeWithRepeats lib config get req) := by
  have hattempts : ∀ r ∈ (List.range (clampRepeats config.repeats)).map
      (fun i => runCurlProbe lib (get i) req), CoherentResult r := by
    intro r hr
    obtain ⟨i, _, rfl⟩ := List.mem_map.mp hr
    exact runCurlProbe_coherent lib (get i) req
  rw [runCurlProbeWithRepeats]
  split_ifs
  all_goals exact pickAttempt_spec _ _ (coherent_of_failed rfl rfl) hattempts (by simp) (by simp)

theorem invokeCurlProbeWorker_coherent (config : Repeats) (worker : Worker) (req : CurlProbeRequest) :
    Coherent (invokeCurlProbeWorker lib config worker req) := by
  cases worker with
  | answers get =>
      have h := runCurlProbeWithRepeats_coherent lib config get req
      refine ⟨h.success_of_throttled, fun hs => ?_⟩
      change (Option.getD _ "") = ""
      rw [h.error_of_success hs, Option.getD_none]
  | fails error => exact ⟨fun h => absurd h Bool.false_ne_true, fun h => absurd h Bool.false_ne_true⟩

end Blockchecks.CurlProbe
