import Blockchecks.BridgeWorkerPool

namespace Blockchecks.BatchService

open StrategyText Results BridgeWorkerPool

/-- What a bridge probe attaches to its answer at the end, all keys together. -/
structure BridgeKeys where
  gen : Int
  events : List String
  applied : Bool
  rstIn : Bool := false
  rstInTtl : Int := 0
  deriving DecidableEq

structure ProbeData where
  success : Bool := false
  httpCode : Int := 0
  latencyMs : ℚ := 0
  contentLen : Int := 0
  contentOk : Bool := true
  throttled : Bool := false
  readRateBps : ℚ := 0
  error : String := ""
  usedIp : String := ""
  resolveName : String := ""
  bridge : Option BridgeKeys := none
  batchId : Int := 0
  deriving DecidableEq

def bridgeSilent (data : ProbeData) : Bool :=
  match data.bridge with
  | none => false
  | some keys => if keys.applied then false else !(!keys.events.isEmpty || keys.rstIn)

def dnsNodataSkip : String := "no DoH A record (skipped probe)"

structure DnsMeta where
  ip : Option String := none
  verdict : String := ""
  dohServer : String := ""
  deriving DecidableEq

def DnsMeta.noAddress (m : DnsMeta) : Bool := m.ip = none ∨ m.ip = some ""

structure BatchContext where
  items : List StrategyItem
  domains : List String
  batchId : Int
  protocol : String := "tls12"
  parallel : domains.length = items.length

/-- The arguments of run_tcp_check_bridge that vary between the probes of a batch. -/
structure BridgeCall where
  strategyId : Nat
  gen : Nat
  strategy : String
  domain : String
  timeout : ℚ
  protocol : String
  resolvedIp : Option String
  resolvedIps : List String
  deriving DecidableEq

structure Deps where
  secureDns : Bool
  timingFor : StrategyItem → ℚ → ℚ
  resolveDomainDns : String → DnsMeta
  resolveDomainIps : String → List String
  readLines : String → List String
  classifyFailPhase : String → Int → String

/-- What happens to a batch from outside: when the stop event is seen, whether a
namespace is acquired in time, what the daemon needs and which calls raise. The
index is the position of the job, from 1. -/
structure Env where
  runnerStop : Bool
  entryStop : Bool
  acquired : Bool
  dnsStop : Bool
  prepare : Except String Unit
  boot : Except String Unit
  loopStop : Nat → Bool
  recycle : Nat → Except String Bool
  debugToggled : Nat → Bool
  heartbeatStale : Nat → Bool
  reboot : Nat → Except String Unit
  gen : Nat → Nat
  check : BridgeCall → Except String ProbeData
  retryReboot : Nat → Except String Unit
  retryGen : Nat → Nat
  shutdown : Except String Unit

variable (deps : Deps) (env : Env)

def strategyTextFromItem (item : StrategyItem) : String :=
  if !item.isConfig then item.strategy
  else "\n".intercalate ((deps.readLines item.strategy).filterMap (fun raw =>
    let raw := strip raw.toList
    if startsWith raw "--lua-desync=" then some (String.ofList (raw.drop "--lua-desync=".toList.length))
    else none))

def tcpResultFromData (item : StrategyItem) (domain : String) (data : ProbeData) :
    TcpTestResult where
  item := item
  domain := domain
  success := data.success
  httpCode := data.httpCode
  latencyMs := data.latencyMs
  contentLength := data.contentLen
  contentValid := data.contentOk
  throttled := data.throttled
  readRateBps := data.readRateBps
  error := data.error
  usedIp := data.usedIp
  probeHost := data.resolveName
  rstInTtl := (data.bridge.map (·.rstInTtl)).getD 0
  bridgeApplied := data.bridge.map (·.applied)
  bridgeBatchId := data.batchId
  bridgeGen := (data.bridge.map (·.gen)).getD 0
  failPhase :=
    if (data.bridge.map (·.rstIn)).getD false && !data.success then "tls_rst_at_sni"
    else if data.error ≠ "" ∧ data.success = false then
      deps.classifyFailPhase data.error data.httpCode
    else ""

def sessionProtocol (ctx : BatchContext) : String :=
  match ctx.items with
  | [] => ctx.protocol
  | item :: _ => if item.protocol = "" then ctx.protocol else item.protocol

def bridgeCall (ctx : BatchContext) (timeout : ℚ) (idx gen : Nat) (item : StrategyItem)
    (dom : String) : BridgeCall where
  strategyId := idx
  gen := gen
  strategy := item.strategy
  domain := dom
  timeout := deps.timingFor item timeout
  protocol := if item.protocol = "" then sessionProtocol ctx else item.protocol
  resolvedIp := (deps.resolveDomainDns dom).ip
  resolvedIps := deps.resolveDomainIps dom

def upkeep (idx : Nat) : Except String Unit := do
  if ← env.recycle idx then return ()
  else if env.debugToggled idx then env.reboot idx
  else if env.heartbeatStale idx then env.reboot idx
  else return ()

/-- Publish the strategy and probe; a silent bridge is rebooted and asked once more. -/
def probeJob (ctx : BatchContext) (timeout : ℚ) (idx : Nat) (item : StrategyItem) (dom : String) :
    Except String ProbeData := do
  let data ← env.check (bridgeCall deps ctx timeout idx (env.gen idx) item dom)
  if bridgeSilent data then
    env.retryReboot idx
    env.check (bridgeCall deps ctx timeout idx (env.retryGen idx) item dom)
  else return data

def jobData (ctx : BatchContext) (timeout : ℚ) (idx : Nat) (item : StrategyItem) (dom : String) :
    Except String ProbeData := do
  upkeep env idx
  if deps.secureDns && (deps.resolveDomainDns dom).noAddress then
    return { error := dnsNodataSkip, batchId := ctx.batchId }
  let data ← probeJob deps env ctx timeout idx item dom
  return { data with batchId := ctx.batchId }

/-- The probe loop from a position on: the results appended so far and the text
of the exception that left it, if one did. -/
def probeLoop (ctx : BatchContext) (timeout : ℚ) : Nat → List (StrategyItem × String) →
    List TcpTestResult × Option String
  | _, [] => ([], none)
  | idx, (item, dom) :: rest =>
      if env.loopStop idx then ([], none)
      else match jobData deps env ctx timeout idx item dom with
        | .error e => ([], some e)
        | .ok data =>
            let (results, raised) := probeLoop ctx timeout (idx + 1) rest
            (tcpResultFromData deps item dom data :: results, raised)

def sessionRun (ctx : BatchContext) (timeout : ℚ) : List TcpTestResult × Option String :=
  match env.boot with
  | .error e => ([], some e)
  | .ok () => probeLoop deps env ctx timeout 1 (ctx.items.zip ctx.domains)

/-- The frame of the results is unwound when the session raises, and also when
its shutdown does. -/
def runLuaBridgeBatch (ctx : BatchContext) (timeout : ℚ) : Except String (List TcpTestResult) := do
  env.prepare
  let (results, raised) := sessionRun deps env ctx timeout
  env.shutdown
  match raised with
  | some e => throw e
  | none => return results

def skippedBatchResult (ctx : BatchContext) (error : String) : List TcpTestResult :=
  (ctx.items.zip ctx.domains).map (fun p => skippedResult error p.1 p.2)

def dnsNodataResult (ctx : BatchContext) : List TcpTestResult :=
  (ctx.items.zip ctx.domains).map (fun p =>
    { item := p.1, domain := p.2, error := dnsNodataSkip, failPhase := "dns_resolve" })

def failResult (ctx : BatchContext) (error : String) (item : StrategyItem) (dom : String) :
    TcpTestResult :=
  tcpResultFromData deps item dom { error := error, batchId := ctx.batchId }

def batchFailResults (ctx : BatchContext) (error : String) : List TcpTestResult :=
  (ctx.items.zip ctx.domains).map (fun p => failResult deps ctx error p.1 p.2)

def padUnprobedResults (ctx : BatchContext) (results : List TcpTestResult) : List TcpTestResult :=
  results ++ ((ctx.items.zip ctx.domains).drop results.length).map
    (fun p => skippedResult stoppedBeforeProbe p.1 p.2)

structure LogRow where
  item : StrategyItem
  domain : String
  result : TcpTestResult
  dns : DnsMeta
  deriving DecidableEq

structure BatchOutcome where
  results : List TcpTestResult
  logged : List LogRow

/-- Pad and log, one row for each result; none when the strict zip raises. -/
def finalizeBatch (ctx : BatchContext) (results : List TcpTestResult) (dns : String → DnsMeta) :
    Option BatchOutcome :=
  let results := padUnprobedResults ctx results
  if results.length = ctx.items.length then
    some ⟨results, ((ctx.items.zip ctx.domains).zip results).map
      (fun p => ⟨p.1.1, p.1.2, p.2, dns p.1.2⟩)⟩
  else none

/-- The synchronous part of a batch; any exception becomes a failure result of
every item. -/
def syncResults (ctx : BatchContext) (timeout : ℚ) : List TcpTestResult :=
  match runLuaBridgeBatch deps env ctx timeout with
  | .ok results => results
  | .error e => batchFailResults deps ctx e

def allNodata (ctx : BatchContext) : Bool :=
  deps.secureDns && !ctx.domains.isEmpty &&
    ctx.domains.all (fun dom => (deps.resolveDomainDns dom).noAddress)

def runBatch (ctx : BatchContext) (timeout : ℚ) : Option BatchOutcome :=
  if env.entryStop then
    finalizeBatch ctx (skippedBatchResult ctx stoppedBeforeProbe) (fun _ => {})
  else if !env.acquired then
    finalizeBatch ctx (skippedBatchResult ctx nsPoolExhausted) (fun _ => {})
  else if env.dnsStop then
    finalizeBatch ctx (skippedBatchResult ctx stoppedBeforeProbe) deps.resolveDomainDns
  else if allNodata deps ctx then
    finalizeBatch ctx (dnsNodataResult ctx) deps.resolveDomainDns
  else finalizeBatch ctx (syncResults deps env ctx timeout) deps.resolveDomainDns

/-- The runner's entry: nothing is logged when the stop is already set. -/
def runProbeBatch (ctx : BatchContext) (timeout : ℚ) : Option BatchOutcome :=
  if ctx.items = [] ∨ env.runnerStop = true then some ⟨[], []⟩ else runBatch deps env ctx timeout

inductive AccountCall where
  | accountOk (job : BridgeJob) (passed : Bool) (result : TcpTestResult)
  | accountSkipped (job : BridgeJob)
  deriving DecidableEq

def accountFor (job : BridgeJob) (result : TcpTestResult) : AccountCall :=
  if result.error = stoppedBeforeProbe then .accountSkipped job
  else .accountOk job result.campaignPass result

structure BatchRun where
  accounted : List AccountCall
  logged : List LogRow
  deriving DecidableEq

def contextOf (jobs : List BridgeJob) (batchId : Int) : BatchContext where
  items := jobs.map (·.item)
  domains := jobs.map (·.domain)
  batchId := batchId
  protocol := match jobs with
    | [] => "tls12"
    | job :: _ => if job.item.protocol = "" then "tls12" else job.item.protocol
  parallel := by simp

def runBridgeBatch (jobs : List BridgeJob) (timeout : ℚ) (batchId : Int) : Option BatchRun :=
  if jobs = [] then some ⟨[], []⟩
  else do
    let outcome ← runProbeBatch deps env (contextOf jobs batchId) timeout
    let results := padResults jobs outcome.results
    if results.length = jobs.length then
      return ⟨List.zipWith accountFor jobs results, outcome.logged⟩
    else none

end Blockchecks.BatchService
