import Blockchecks.BatchService
import Blockchecks.RunStore

namespace Blockchecks.ProbeLogger

open StrategyText Results BatchService RunStore

inductive Backend where
  | luaBridge
  | oneshot
  | unknown (name : String)
  deriving DecidableEq

def probeSkipErrors : List String := [stoppedBeforeProbe, nsPoolExhausted]

def tcpRowStatus (result : TcpTestResult) : Status :=
  if result.error ∈ probeSkipErrors then .skipped
  else if result.throttled then .throttled
  else if result.success then .pass
  else .fail

/-- The stored status of a campaign row. Only an applied strategy of the bridge
is stored as a pass, a one-shot pass never is. -/
def campaignHarvestStatus (result : TcpTestResult) (backend : Backend) : Status :=
  if tcpRowStatus result ≠ .pass then tcpRowStatus result
  else match backend with
    | .luaBridge => if result.success ∧ result.bridgeApplied = some true then .pass else .fail
    | .oneshot => .fail
    | .unknown _ => .fail

def orElse (text default : String) : String := if text = "" then default else text

def campaignFailPhase (result : TcpTestResult) (backend : Backend) (status : Status) : String :=
  if status = .pass then result.failPhase
  else if backend = .oneshot ∧ result.success then orElse result.failPhase "oneshot"
  else if backend = .luaBridge ∧ result.success ∧ result.bridgeApplied ≠ some true then
    orElse result.failPhase "no_bridge_applied"
  else result.failPhase

def resolvedIpForLog (usedIp : String) (resolvedIp : Option String) : String :=
  if usedIp ≠ "" then usedIp else resolvedIp.getD ""

def protoDb (item : StrategyItem) : String :=
  if orElse item.protocol "tls12" = "http" then "http" else "tcp"

def logTcpCampaign (item : StrategyItem) (domain : String) (result : TcpTestResult)
    (backend : Backend) (dns : DnsMeta) : TcpEntry where
  strategy := item.label
  proto := protoDb item
  configPath := orElse item.strategy item.label
  columns :=
    { domain := domain
      status := campaignHarvestStatus result backend
      httpCode := result.httpCode
      latencyMs := result.latencyMs
      contentValid := result.contentValid
      error := result.error
      readRateBps := result.readRateBps
      resolvedIp := resolvedIpForLog result.usedIp dns.ip
      dnsVerdict := dns.verdict
      dohServer := dns.dohServer
      failPhase := campaignFailPhase result backend (campaignHarvestStatus result backend)
      bridgeApplied := result.bridgeApplied
      bridgeBatchId := result.bridgeBatchId
      bridgeGen := result.bridgeGen
      probeHost := result.probeHost
      settleMs := result.settleMs
      contentLen := some result.contentLength }

def logQuicResult (item : StrategyItem) (domain : String) (result : TcpTestResult) (dns : DnsMeta) :
    TcpEntry where
  strategy := item.label
  proto := "quic"
  configPath := orElse item.strategy item.label
  columns :=
    { domain := domain
      status := if result.success then .pass else .fail
      httpCode := result.httpCode
      latencyMs := result.latencyMs
      error := result.error
      resolvedIp := dns.ip.getD ""
      dnsVerdict := dns.verdict
      dohServer := dns.dohServer
      probeHost := result.probeHost
      settleMs := result.settleMs
      contentLen := some result.contentLength }

theorem campaignHarvestStatus_of_ne_pass {result : TcpTestResult} (h : tcpRowStatus result ≠ .pass)
    (backend : Backend) : campaignHarvestStatus result backend = tcpRowStatus result :=
  if_pos h

theorem success_of_tcpRowStatus_pass {result : TcpTestResult} (h : tcpRowStatus result = .pass) :
    result.success = true := by
  rw [tcpRowStatus] at h
  split_ifs at h with _ _ hs
  exact hs

/-- An applied pass of the bridge, the one kind of result whose stored status
depends on the backend. -/
def AppliedPass (result : TcpTestResult) : Prop :=
  tcpRowStatus result = .pass ∧ result.bridgeApplied = some true

instance (result : TcpTestResult) : Decidable (AppliedPass result) :=
  inferInstanceAs (Decidable (_ ∧ _))

theorem campaignHarvestStatus_eq_pass_iff {result : TcpTestResult} {backend : Backend} :
    campaignHarvestStatus result backend = .pass ↔ AppliedPass result ∧ backend = .luaBridge := by
  by_cases hbase : tcpRowStatus result = .pass
  · have hs := success_of_tcpRowStatus_pass hbase
    cases backend <;> simp [campaignHarvestStatus, AppliedPass, hbase, hs]
  · rw [campaignHarvestStatus_of_ne_pass hbase]
    exact iff_of_false hbase (fun h => hbase h.1.1)

theorem campaignHarvestStatus_eq_lua_iff {result : TcpTestResult} {backend : Backend} :
    campaignHarvestStatus result backend = campaignHarvestStatus result .luaBridge ↔
      (AppliedPass result → backend = .luaBridge) := by
  by_cases hpass : AppliedPass result
  · rw [campaignHarvestStatus_eq_pass_iff.mpr ⟨hpass, rfl⟩, campaignHarvestStatus_eq_pass_iff]
    tauto
  · refine iff_of_true ?_ (fun h => absurd h hpass)
    by_cases hbase : tcpRowStatus result = .pass
    · have hna : result.bridgeApplied ≠ some true := fun h => hpass ⟨hbase, h⟩
      cases backend <;> simp [campaignHarvestStatus, hbase, hna]
    · rw [campaignHarvestStatus_of_ne_pass hbase, campaignHarvestStatus_of_ne_pass hbase]

end Blockchecks.ProbeLogger
