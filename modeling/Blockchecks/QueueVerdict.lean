import Blockchecks.ProbeChecks
import Blockchecks.RunLog

namespace Blockchecks.QueueVerdict

open StrategyText Results BridgeWorkerPool BatchService BatchPairing CurlProbe ProbeChecks RunStore RunLog
  ProbeLogger

/-- Whether the queue marks the job of an accounting call as passed. -/
def queuePassed : AccountCall → Bool
  | .accountOk _ passed _ => passed
  | .accountSkipped _ => false

/-- The surroundings of a batch whose checks are run through the bridge; a call
for which there is no probe raises. -/
def bridgeEnv (lib : TextLib) (config : Repeats) (disableEch : Bool) (env : Env)
    (probes : BridgeCall → Except String BridgeProbe) : Env :=
  { env with check := fun call =>
      (probes call).map (fun probe => runTcpCheckBridge lib config disableEch probe call) }

structure CoherentProbe (r : TcpTestResult) : Prop where
  success_of_throttled : r.throttled = true → r.success = true
  error_of_success : r.success = true → r.error = ""

/-- A success of a batch carries the verdict of the bridge. -/
structure Bridged (r : TcpTestResult) : Prop extends CoherentProbe r where
  applied_of_success : r.success = true → r.bridgeApplied ≠ none

theorem bridged_of_failed {r : TcpTestResult} (hs : r.success = false) (ht : r.throttled = false) :
    Bridged r where
  success_of_throttled h := by simp [ht] at h
  error_of_success h := by simp [hs] at h
  applied_of_success h := by simp [hs] at h

theorem CoherentProbe.error_not_skip {r : TcpTestResult} (h : CoherentProbe r) (hs : r.success = true) :
    r.error ∉ probeSkipErrors := by
  rw [h.error_of_success hs]
  decide

theorem CoherentProbe.tcpRowStatus_working {r : TcpTestResult} (h : CoherentProbe r) :
    (tcpRowStatus r).isWorking = r.success := by
  rw [tcpRowStatus]
  split_ifs with hskip ht hs
  · cases hs : r.success with
    | false => rfl
    | true => exact absurd hskip (h.error_not_skip hs)
  · exact (h.success_of_throttled ht).symm
  · exact hs.symm
  · exact (Bool.eq_false_iff.mpr hs).symm

theorem campaignPass_eq (httpOk : Bool) (applied : Option Bool) :
    Results.campaignPass httpOk applied = (httpOk && decide (applied ≠ some false)) := by
  rcases applied with _ | _ | _ <;> simp [Results.campaignPass]

theorem Bridged.isWorking_eq {r : TcpTestResult} (h : Bridged r) (item : StrategyItem) (domain : String)
    (dns : DnsMeta) :
    (logTcpCampaign item domain r .luaBridge dns).columns.isWorking = r.campaignPass := by
  change (Status.isWorking (campaignHarvestStatus r .luaBridge) &&
    decide (r.bridgeApplied = none ∨ r.bridgeApplied = some true)) = _
  rw [TcpTestResult.campaignPass, campaignPass_eq]
  by_cases hpass : tcpRowStatus r = .pass
  · have hs := success_of_tcpRowStatus_pass hpass
    have happlied := h.applied_of_success hs
    rcases hb : r.bridgeApplied with _ | _ | _
    · exact absurd hb happlied
    all_goals simp [campaignHarvestStatus, hpass, hs, hb, Status.isWorking]
  · rw [campaignHarvestStatus_of_ne_pass hpass, h.tcpRowStatus_working]
    rcases r.bridgeApplied with _ | _ | _ <;> simp

theorem Bridged.queuePassed_eq {r : TcpTestResult} (h : Bridged r) (job : BridgeJob) :
    queuePassed (accountFor job r) = r.campaignPass := by
  rw [accountFor]
  split
  next herror =>
    have hs : r.success = false := by
      rw [Bool.eq_false_iff]
      intro hs
      rw [h.error_of_success hs] at herror
      exact absurd herror (by decide)
    rw [TcpTestResult.campaignPass, campaignPass_eq, hs, Bool.false_and]
    rfl
  · rfl

variable {deps : Deps} {env : Env} {ctx : BatchContext} {timeout : ℚ} {lib : TextLib} {config : Repeats}
  {disableEch : Bool} {probes : BridgeCall → Except String BridgeProbe}

theorem jobData_bridged {idx : Nat} {item : StrategyItem} {dom : String} {data : ProbeData}
    (h : jobData deps (bridgeEnv lib config disableEch env probes) ctx timeout idx item dom = .ok data) :
    Bridged (tcpResultFromData deps item dom data) := by
  rcases jobData_ok h with ⟨_, _, rfl⟩ | ⟨_, answer, hjob, rfl⟩
  · exact bridged_of_failed rfl rfl
  · obtain ⟨gen, _, hcheck⟩ := probeJob_ok hjob
    simp only [bridgeEnv] at hcheck
    cases hprobe : probes (bridgeCall deps ctx timeout idx gen item dom) with
    | error e =>
        rw [hprobe] at hcheck
        cases hcheck
    | ok probe =>
        rw [hprobe] at hcheck
        obtain rfl := Except.ok.inj hcheck
        obtain ⟨hco, hbridge⟩ := runTcpCheckBridge_spec lib config disableEch probe
          (bridgeCall deps ctx timeout idx gen item dom)
        exact ⟨⟨hco.success_of_throttled, hco.error_of_success⟩,
          fun hs => Option.map_eq_none_iff.not.mpr (hbridge hs)⟩

theorem probeLoop_bridged (pairs : List (StrategyItem × String)) (idx : Nat) :
    ∀ r ∈ (probeLoop deps (bridgeEnv lib config disableEch env probes) ctx timeout idx pairs).1,
      Bridged r := by
  induction pairs generalizing idx with
  | nil => exact fun r hr => absurd hr List.not_mem_nil
  | cons p rest ih =>
      obtain ⟨item, dom⟩ := p
      rw [probeLoop]
      split
      · exact fun r hr => absurd hr List.not_mem_nil
      · split
        · exact fun r hr => absurd hr List.not_mem_nil
        next data hdata =>
          intro r hr
          rcases List.mem_cons.mp hr with rfl | hrest
          · exact jobData_bridged hdata
          · exact ih (idx + 1) r hrest

theorem skipped_bridged (ctx : BatchContext) (error : String) :
    ∀ r ∈ skippedBatchResult ctx error, Bridged r := by
  intro r hr
  obtain ⟨p, _, rfl⟩ := List.mem_map.mp hr
  exact bridged_of_failed rfl rfl

theorem syncResults_bridged :
    ∀ r ∈ syncResults deps (bridgeEnv lib config disableEch env probes) ctx timeout, Bridged r := by
  rw [syncResults]
  split
  next results hok =>
    have hsession := runLuaBridgeBatch_ok hok
    rw [sessionRun] at hsession
    split at hsession
    · cases hsession
    · have hloop : ∀ r ∈ (probeLoop deps (bridgeEnv lib config disableEch env probes) ctx timeout 1
          (ctx.items.zip ctx.domains)).1, Bridged r := probeLoop_bridged _ 1
      rw [hsession] at hloop
      exact hloop
  next e _ =>
    intro r hr
    obtain ⟨p, _, rfl⟩ := List.mem_map.mp hr
    exact bridged_of_failed rfl rfl

theorem finalizeBatch_bridged {results : List TcpTestResult} {dns : String → DnsMeta}
    {outcome : BatchOutcome} (hres : ∀ r ∈ results, Bridged r)
    (h : finalizeBatch ctx results dns = some outcome) :
    (∀ r ∈ outcome.results, Bridged r) ∧ outcome.results.length = ctx.items.length ∧
      outcome.logged.map LogRow.result = outcome.results := by
  simp only [finalizeBatch] at h
  split_ifs at h with hlen
  obtain rfl := Option.some.inj h
  refine ⟨?_, hlen, ?_⟩
  · intro r hr
    rcases List.mem_append.mp hr with hold | hpad
    · exact hres r hold
    · obtain ⟨p, _, rfl⟩ := List.mem_map.mp hpad
      exact bridged_of_failed rfl rfl
  · rw [List.map_map]
    change ((ctx.items.zip ctx.domains).zip _).map Prod.snd = _
    rw [List.map_snd_zip]
    rw [hlen, pairs_length]

theorem runBatch_bridged {outcome : BatchOutcome}
    (h : runBatch deps (bridgeEnv lib config disableEch env probes) ctx timeout = some outcome) :
    (∀ r ∈ outcome.results, Bridged r) ∧ outcome.results.length = ctx.items.length ∧
      outcome.logged.map LogRow.result = outcome.results := by
  rw [runBatch] at h
  split_ifs at h
  · exact finalizeBatch_bridged (skipped_bridged ctx _) h
  · exact finalizeBatch_bridged (skipped_bridged ctx _) h
  · exact finalizeBatch_bridged (skipped_bridged ctx _) h
  · refine finalizeBatch_bridged ?_ h
    intro r hr
    obtain ⟨p, _, rfl⟩ := List.mem_map.mp hr
    exact bridged_of_failed rfl rfl
  · exact finalizeBatch_bridged syncResults_bridged h

/-- Every row that a batch logs belongs to the job accounted at its place. -/
theorem runBridgeBatch_rows {jobs : List BridgeJob} {batchId : Int} {run : BatchRun}
    (h : runBridgeBatch deps (bridgeEnv lib config disableEch env probes) jobs timeout batchId = some run)
    {i : Nat} {row : LogRow} (hrow : run.logged[i]? = some row) :
    Bridged row.result ∧ ∃ job, run.accounted[i]? = some (accountFor job row.result) := by
  rw [runBridgeBatch] at h
  split_ifs at h with hnil
  · obtain rfl := Option.some.inj h
    simp at hrow
  · obtain ⟨outcome, houtcome, h⟩ := Option.bind_eq_some_iff.mp h
    dsimp only at h
    split_ifs at h with hlen
    obtain rfl := Option.some.inj h
    rw [runProbeBatch] at houtcome
    split_ifs at houtcome with hstop
    · obtain rfl := Option.some.inj houtcome
      simp at hrow
    · obtain ⟨hbridged, hn, hrows⟩ := runBatch_bridged houtcome
      have hpad : padResults jobs outcome.results = outcome.results := by
        rw [padResults, hn, contextOf_length]
        simp
      have hr : outcome.results[i]? = some row.result := by
        rw [← hrows, List.getElem?_map, hrow]
        rfl
      have hi : i < jobs.length := by
        rw [← contextOf_length jobs batchId, ← hn]
        exact (List.getElem?_eq_some_iff.mp hr).1
      refine ⟨hbridged _ (List.mem_of_getElem? hr), jobs[i], ?_⟩
      simp [List.getElem?_zipWith, hpad, hr, List.getElem?_eq_getElem hi]

theorem oneshot_isWorking {r : TcpTestResult} (h : CoherentProbe r) (hb : r.bridgeApplied = none)
    (item : StrategyItem) (domain : String) (dns : DnsMeta) :
    (logTcpCampaign item domain r .oneshot dns).columns.isWorking = r.throttled := by
  change (Status.isWorking (campaignHarvestStatus r .oneshot) &&
    decide (r.bridgeApplied = none ∨ r.bridgeApplied = some true)) = _
  rw [hb, decide_eq_true (Or.inl rfl), Bool.and_true]
  cases ht : r.throttled with
  | false => by_cases hskip : r.error ∈ probeSkipErrors <;> cases hs : r.success <;>
      simp [campaignHarvestStatus, tcpRowStatus, hskip, ht, hs, Status.isWorking]
  | true =>
      have hskip := h.error_not_skip (h.success_of_throttled ht)
      simp [campaignHarvestStatus, tcpRowStatus, hskip, ht, Status.isWorking]

theorem testTcp_logged {call : ProbeChecks.Oneshot} {item : StrategyItem} {domain : String}
    {result : TcpTestResult} {entry : TcpEntry}
    (h : testTcp lib config call item domain = some (result, some entry)) :
    entry.columns.isWorking = (result.campaignPass && result.throttled) := by
  have hrow {r r' : TcpTestResult} (hco : CoherentProbe r) (hb : r.bridgeApplied = none)
      (hs : r'.success = r.success) (ht : r'.throttled = r.throttled) (hb' : r'.bridgeApplied = none) :
      (logTcpCampaign item domain r .oneshot call.dns).columns.isWorking =
        (r'.campaignPass && r'.throttled) := by
    rw [oneshot_isWorking hco hb, TcpTestResult.campaignPass, campaignPass_eq, hs, ht, hb']
    cases hthrottled : r.throttled with
    | false => rw [Bool.and_false]
    | true =>
        rw [hco.success_of_throttled hthrottled]
        rfl
  simp only [testTcp] at h
  split at h
  · split at h
    · obtain ⟨rfl, he⟩ := Prod.mk.inj (Option.some.inj h)
      obtain rfl := Option.some.inj he
      exact hrow (bridged_of_failed rfl rfl).toCoherentProbe rfl rfl rfl rfl
    · cases h
  split at h
  · cases h
  split at h
  · obtain ⟨_, he⟩ := Prod.mk.inj (Option.some.inj h)
    cases he
  next data hdata =>
    have hdata := checkWithRetry_coherent lib config hdata
    have hco : CoherentProbe (oneshotResult item domain data) :=
      ⟨hdata.success_of_throttled, hdata.error_of_success⟩
    split at h
    · obtain ⟨rfl, he⟩ := Prod.mk.inj (Option.some.inj h)
      obtain rfl := Option.some.inj he
      exact hrow hco rfl rfl rfl rfl
    · obtain ⟨rfl, he⟩ := Prod.mk.inj (Option.some.inj h)
      split at he
      · obtain rfl := Option.some.inj he
        exact hrow hco rfl rfl rfl rfl
      · cases he

def plainText : TextLib := ⟨fun _ => "", fun _ => "", id⟩

/-- Every exchange is answered with an empty 204. -/
def noContent : Worker := .answers (fun _ _ _ => .response { statusCode := 204, content := [] } 1)

def appliedOnce : BridgeProbe where
  googlevideo := none
  ytcdn := { domain := "i.ytimg.com" }
  worker := noContent
  http3 := .subprocessFailed "timeout"
  events := [{ event := .applied, gen := 2, id := 1, matched := 1 }]

def freshOneshot : ProbeChecks.Oneshot where
  secureDns := true
  dns := ⟨some "192.0.2.1", "ok", "doh"⟩
  resolvedIps := ["192.0.2.1"]
  acquired := true
  timeout := 5
  retryIpTimeout := 2
  wssizeTimeout := 6
  disableEch := false
  tryWssize := false
  check := { googlevideo := none, ytcdnVariants := [], worker := fun _ => noContent }
  wssizeCheck := { googlevideo := none, ytcdnVariants := [], worker := fun _ => noContent }
  logging := .written

end Blockchecks.QueueVerdict
