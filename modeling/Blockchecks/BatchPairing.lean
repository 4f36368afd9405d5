import Blockchecks.BatchService
import Blockchecks.LuaConf

namespace Blockchecks.BatchPairing

open StrategyText LuaConf Results BridgeWorkerPool BatchService

variable {deps : Deps} {env : Env} {ctx : BatchContext} {timeout : ℚ}

/-- The result of a job that the loop reached: obtained by publishing the number
of the job for its domain, or a skip because the domain has no address. -/
inductive Paired (deps : Deps) (env : Env) (ctx : BatchContext) (timeout : ℚ) (idx : Nat)
    (item : StrategyItem) (dom : String) : TcpTestResult → Prop
  | probed {gen : Nat} {data : ProbeData} (hgen : gen = env.gen idx ∨ gen = env.retryGen idx)
      (hcheck : env.check (bridgeCall deps ctx timeout idx gen item dom) = .ok data) :
      Paired deps env ctx timeout idx item dom
        (tcpResultFromData deps item dom { data with batchId := ctx.batchId })
  | skipped (hsecure : deps.secureDns = true)
      (hnone : (deps.resolveDomainDns dom).noAddress = true) {result : TcpTestResult}
      (hfail : result.success = false) (herror : result.error = dnsNodataSkip)
      (hitem : result.item = item) (hdom : result.domain = dom) : Paired deps env ctx timeout idx item dom result

theorem ok_of_bind {α β : Type} {x : Except String α} {f : α → Except String β} {b : β}
    (h : (x >>= f) = .ok b) : ∃ a, x = .ok a ∧ f a = .ok b := by
  cases x with
  | error e => cases h
  | ok a => exact ⟨a, rfl, h⟩

theorem probeJob_ok {idx : Nat} {item : StrategyItem} {dom : String} {data : ProbeData}
    (h : probeJob deps env ctx timeout idx item dom = .ok data) :
    ∃ gen, (gen = env.gen idx ∨ gen = env.retryGen idx) ∧
      env.check (bridgeCall deps ctx timeout idx gen item dom) = .ok data := by
  obtain ⟨first, hfirst, h⟩ := ok_of_bind h
  split at h
  next =>
    obtain ⟨_, _, h⟩ := ok_of_bind h
    exact ⟨env.retryGen idx, Or.inr rfl, h⟩
  next =>
    obtain rfl := Except.ok.inj h
    exact ⟨env.gen idx, Or.inl rfl, hfirst⟩

theorem jobData_ok {idx : Nat} {item : StrategyItem} {dom : String} {data : ProbeData}
    (h : jobData deps env ctx timeout idx item dom = .ok data) :
    (deps.secureDns = true ∧ (deps.resolveDomainDns dom).noAddress = true ∧
        data = { error := dnsNodataSkip, batchId := ctx.batchId }) ∨
      ((deps.secureDns && (deps.resolveDomainDns dom).noAddress) = false ∧
        ∃ answer, probeJob deps env ctx timeout idx item dom = .ok answer ∧
          data = { answer with batchId := ctx.batchId }) := by
  obtain ⟨_, _, h⟩ := ok_of_bind h
  split at h
  next hdns =>
    rw [Bool.and_eq_true] at hdns
    exact Or.inl ⟨hdns.1, hdns.2, (Except.ok.inj h).symm⟩
  next hdns =>
    obtain ⟨answer, hjob, h⟩ := ok_of_bind h
    exact Or.inr ⟨Bool.eq_false_iff.mpr hdns, answer, hjob, (Except.ok.inj h).symm⟩

theorem jobData_paired {idx : Nat} {item : StrategyItem} {dom : String} {data : ProbeData}
    (h : jobData deps env ctx timeout idx item dom = .ok data) :
    Paired deps env ctx timeout idx item dom (tcpResultFromData deps item dom data) := by
  rcases jobData_ok h with ⟨hsecure, hnone, rfl⟩ | ⟨_, answer, hjob, rfl⟩
  · exact .skipped hsecure hnone rfl rfl rfl rfl
  · obtain ⟨gen, hgen, hcheck⟩ := probeJob_ok hjob
    exact .probed hgen hcheck

/-- The loop keeps jobs and results aligned up to the point where it leaves. -/
theorem probeLoop_spec (deps : Deps) (env : Env) (ctx : BatchContext) (timeout : ℚ)
    (pairs : List (StrategyItem × String)) (idx : Nat) :
    (probeLoop deps env ctx timeout idx pairs).1.length ≤ pairs.length ∧
      ((probeLoop deps env ctx timeout idx pairs).2 = none →
        (probeLoop deps env ctx timeout idx pairs).1.length < pairs.length →
        env.loopStop (idx + (probeLoop deps env ctx timeout idx pairs).1.length) = true) ∧
      ∀ i item dom result, pairs[i]? = some (item, dom) →
        (probeLoop deps env ctx timeout idx pairs).1[i]? = some result →
        ∃ data, jobData deps env ctx timeout (idx + i) item dom = .ok data ∧
          result = tcpResultFromData deps item dom data := by
  induction pairs generalizing idx with
  | nil => simp [probeLoop]
  | cons p rest ih =>
      obtain ⟨item, dom⟩ := p
      rw [probeLoop]
      split
      next hstop => simp [hstop]
      next =>
        split
        next e _ => simp
        next data hdata =>
          obtain ⟨hlen, hleft, hres⟩ := ih (idx + 1)
          refine ⟨by simpa using hlen, ?_, ?_⟩
          · intro hnone hlt
            have h := hleft hnone (by simpa using hlt)
            rw [List.length_cons, Nat.add_comm _ 1, ← Nat.add_assoc]
            exact h
          · intro i it dm result hp hr
            cases i with
            | zero =>
                obtain ⟨rfl, rfl⟩ := Prod.mk.inj (Option.some.inj hp)
                exact ⟨data, hdata, (Option.some.inj hr).symm⟩
            | succ i =>
                have h := hres i it dm result (by simpa using hp) (by simpa using hr)
                rw [Nat.add_comm i 1, ← Nat.add_assoc]
                exact h

def ProbesRun (deps : Deps) (env : Env) (ctx : BatchContext) : Prop :=
  env.runnerStop = false ∧ env.entryStop = false ∧ env.acquired = true ∧ env.dnsStop = false ∧
    allNodata deps ctx = false

def StopSeen (env : Env) (reached : Nat) : Prop :=
  env.runnerStop = true ∨ env.entryStop = true ∨ env.dnsStop = true ∨
    env.loopStop (reached + 1) = true

/-- One result for each job, in order: the reached ones are paired with their
own probe, the others were stopped before it. -/
def Aligned (deps : Deps) (env : Env) (ctx : BatchContext) (timeout : ℚ)
    (results : List TcpTestResult) : Prop :=
  results.length = ctx.items.length ∧
    ∃ reached ≤ ctx.items.length, (reached < ctx.items.length → StopSeen env reached) ∧
      ∀ i item dom result, (ctx.items.zip ctx.domains)[i]? = some (item, dom) →
        results[i]? = some result →
        (i < reached → Paired deps env ctx timeout (i + 1) item dom result) ∧
        (reached ≤ i → result = skippedResult stoppedBeforeProbe item dom)

theorem pairs_length (ctx : BatchContext) : (ctx.items.zip ctx.domains).length = ctx.items.length := by
  rw [List.length_zip, ctx.parallel, Nat.min_self]

theorem skippedBatchResult_length (ctx : BatchContext) (error : String) :
    (skippedBatchResult ctx error).length = ctx.items.length := by
  rw [skippedBatchResult, List.length_map, pairs_length]

theorem skipped_aligned (h : StopSeen env 0) :
    Aligned deps env ctx timeout (skippedBatchResult ctx stoppedBeforeProbe) := by
  refine ⟨skippedBatchResult_length ctx _, 0, Nat.zero_le _, fun _ => h, ?_⟩
  intro i item dom result hp hr
  refine ⟨fun hi => absurd hi (Nat.not_lt_zero i), fun _ => ?_⟩
  simpa [skippedBatchResult, hp] using hr.symm

theorem dnsNodata_aligned (env : Env) (timeout : ℚ) (h : allNodata deps ctx = true) :
    Aligned deps env ctx timeout (dnsNodataResult ctx) := by
  have hlen : (dnsNodataResult ctx).length = ctx.items.length := by
    simp [dnsNodataResult, ctx.parallel]
  refine ⟨hlen, ctx.items.length, Nat.le_refl _, fun hi => absurd hi (Nat.lt_irrefl _), ?_⟩
  intro i item dom result hp hr
  have hi : i < ctx.items.length := hlen ▸ (List.getElem?_eq_some_iff.mp hr).1
  refine ⟨fun _ => ?_, fun hle => absurd hi (Nat.not_lt.mpr hle)⟩
  have hdom : dom ∈ ctx.domains := (List.of_mem_zip (List.mem_of_getElem? hp)).2
  simp only [allNodata, Bool.and_eq_true, List.all_eq_true] at h
  simp only [dnsNodataResult, List.getElem?_map, hp, Option.map_some, Option.some.injEq] at hr
  subst hr
  exact .skipped h.1.1 (h.2 dom hdom) rfl rfl rfl rfl

theorem runLuaBridgeBatch_ok {results : List TcpTestResult}
    (h : runLuaBridgeBatch deps env ctx timeout = .ok results) :
    sessionRun deps env ctx timeout = (results, none) := by
  obtain ⟨_, _, h⟩ := ok_of_bind h
  cases hr : sessionRun deps env ctx timeout with
  | mk rs raised =>
      rw [hr] at h
      obtain ⟨_, _, h⟩ := ok_of_bind h
      cases raised with
      | some e => cases h
      | none => exact congrArg (·, none) (Except.ok.inj h)

theorem getElem?_pad {α : Type} (results pads : List α) (i : Nat) :
    (results ++ pads.drop results.length)[i]? =
      if i < results.length then results[i]? else pads[i]? := by
  rw [List.getElem?_append]
  split
  · rfl
  next hi => rw [List.getElem?_drop, Nat.add_sub_cancel' (Nat.not_lt.mp hi)]

theorem padUnprobedResults_eq (results : List TcpTestResult) :
    padUnprobedResults ctx results =
      results ++ (skippedBatchResult ctx stoppedBeforeProbe).drop results.length := by
  simp only [padUnprobedResults, skippedBatchResult, List.map_drop]

theorem padUnprobedResults_length {results : List TcpTestResult}
    (h : results.length ≤ ctx.items.length) :
    (padUnprobedResults ctx results).length = ctx.items.length := by
  rw [padUnprobedResults, List.length_append, List.length_map, List.length_drop, pairs_length]
  omega

theorem padUnprobedResults_full {results : List TcpTestResult}
    (h : results.length = ctx.items.length) : padUnprobedResults ctx results = results := by
  rw [padUnprobedResults, List.drop_eq_nil_of_le (by rw [pairs_length, h]), List.map_nil,
    List.append_nil]

theorem session_aligned {results : List TcpTestResult}
    (h : sessionRun deps env ctx timeout = (results, none)) :
    results.length ≤ ctx.items.length ∧
      Aligned deps env ctx timeout (padUnprobedResults ctx results) := by
  have hloop : probeLoop deps env ctx timeout 1 (ctx.items.zip ctx.domains) = (results, none) := by
    unfold sessionRun at h
    cases hb : env.boot with
    | error e =>
        rw [hb] at h
        cases h
    | ok u =>
        rw [hb] at h
        exact h
  obtain ⟨hlen, hleft, hres⟩ := probeLoop_spec deps env ctx timeout
    (ctx.items.zip ctx.domains) 1
  rw [hloop, pairs_length] at hlen hleft
  rw [hloop] at hres
  refine ⟨hlen, padUnprobedResults_length hlen, results.length, hlen, ?_, ?_⟩
  · intro hlt
    exact Or.inr (Or.inr (Or.inr (Nat.add_comm 1 _ ▸ hleft rfl hlt)))
  · intro i item dom result hp hr
    rw [padUnprobedResults_eq, getElem?_pad] at hr
    constructor
    · intro hi
      rw [if_pos hi] at hr
      obtain ⟨data, hdata, rfl⟩ := hres i item dom result hp hr
      exact jobData_paired (Nat.add_comm 1 i ▸ hdata)
    · intro hi
      rw [if_neg (Nat.not_lt.mpr hi)] at hr
      simpa [skippedBatchResult, hp] using hr.symm

def RowsOf (ctx : BatchContext) (outcome : BatchOutcome) : Prop :=
  outcome.logged.map (fun row => ((row.item, row.domain), row.result)) =
    (ctx.items.zip ctx.domains).zip outcome.results

theorem finalizeBatch_spec {results : List TcpTestResult} (h : results.length ≤ ctx.items.length)
    (dns : String → DnsMeta) : ∃ outcome, finalizeBatch ctx results dns = some outcome ∧
      outcome.results = padUnprobedResults ctx results ∧ RowsOf ctx outcome := by
  unfold finalizeBatch
  dsimp only
  rw [if_pos (padUnprobedResults_length h)]
  refine ⟨_, rfl, rfl, ?_⟩
  rw [RowsOf, List.map_map]
  exact List.map_id'' (fun _ => rfl) _

theorem finalizeBatch_full {results : List TcpTestResult} (h : results.length = ctx.items.length)
    (dns : String → DnsMeta) : ∃ outcome, finalizeBatch ctx results dns = some outcome ∧
      outcome.results = results ∧ RowsOf ctx outcome := by
  obtain ⟨outcome, ho, hres, hrows⟩ := finalizeBatch_spec h.le dns
  exact ⟨outcome, ho, hres.trans (padUnprobedResults_full h), hrows⟩

theorem runBatch_aligned (timeout : ℚ) (hrun : env.runnerStop = false)
    (hok : ProbesRun deps env ctx → ∀ e, runLuaBridgeBatch deps env ctx timeout ≠ .error e) :
    ∃ outcome, runBatch deps env ctx timeout = some outcome ∧ RowsOf ctx outcome ∧
      (Aligned deps env ctx timeout outcome.results ∨
        env.entryStop = false ∧ env.acquired = false ∧
          outcome.results = skippedBatchResult ctx nsPoolExhausted) := by
  have hstopped (dns : String → DnsMeta) :=
    finalizeBatch_full (skippedBatchResult_length ctx stoppedBeforeProbe) dns
  rw [runBatch]
  split
  next hstop =>
    obtain ⟨outcome, ho, hres, hrows⟩ := hstopped (fun _ => {})
    exact ⟨outcome, ho, hrows, Or.inl (hres ▸ skipped_aligned (Or.inr (Or.inl hstop)))⟩
  next hentry =>
    split
    next hacq =>
      obtain ⟨outcome, ho, hres, hrows⟩ :=
        finalizeBatch_full (skippedBatchResult_length ctx nsPoolExhausted) (fun _ => {})
      exact ⟨outcome, ho, hrows, Or.inr ⟨by simpa using hentry, by simpa using hacq, hres⟩⟩
    next hacq =>
      split
      next hstop =>
        obtain ⟨outcome, ho, hres, hrows⟩ := hstopped deps.resolveDomainDns
        exact ⟨outcome, ho, hrows, Or.inl (hres ▸ skipped_aligned (Or.inr (Or.inr (Or.inl hstop))))⟩
      next hdns =>
        split
        next hnone =>
          have hal := dnsNodata_aligned env timeout hnone
          obtain ⟨outcome, ho, hres, hrows⟩ := finalizeBatch_full hal.1 deps.resolveDomainDns
          exact ⟨outcome, ho, hrows, Or.inl (hres ▸ hal)⟩
        next hsome =>
          have hreach : ProbesRun deps env ctx :=
            ⟨hrun, by simpa using hentry, by simpa using hacq, by simpa using hdns, by simpa using hsome⟩
          cases hsync : runLuaBridgeBatch deps env ctx timeout with
          | error e => exact absurd hsync (hok hreach e)
          | ok results =>
              obtain ⟨hlen, hal⟩ := session_aligned (runLuaBridgeBatch_ok hsync)
              obtain ⟨outcome, ho, hres, hrows⟩ := finalizeBatch_spec hlen deps.resolveDomainDns
              refine ⟨outcome, ?_, hrows, Or.inl (hres ▸ hal)⟩
              rw [syncResults, hsync]
              exact ho

theorem contextOf_pairs (jobs : List BridgeJob) (batchId : Int) :
    (contextOf jobs batchId).items.zip (contextOf jobs batchId).domains =
      jobs.map (fun job => (job.item, job.domain)) := by
  simp only [contextOf]
  induction jobs with
  | nil => rfl
  | cons job jobs ih => simpa using ih

theorem contextOf_length (jobs : List BridgeJob) (batchId : Int) :
    (contextOf jobs batchId).items.length = jobs.length := by
  simp [contextOf]

theorem runBridgeBatch_eq {jobs : List BridgeJob} {batchId : Int} {outcome : BatchOutcome}
    (hnil : jobs ≠ [])
    (h : runProbeBatch deps env (contextOf jobs batchId) timeout = some outcome)
    (hlen : outcome.results.length ≤ jobs.length) :
    runBridgeBatch deps env jobs timeout batchId =
      some ⟨List.zipWith accountFor jobs (padResults jobs outcome.results), outcome.logged⟩ := by
  simp only [runBridgeBatch, hnil, if_false, h, Option.bind_eq_bind, Option.bind_some,
    padResults_length hlen, if_true]
  rfl

/-- Aligned results in terms of the jobs, with the conf blocks of their strategies. -/
theorem Aligned.jobs {jobs : List BridgeJob} {batchId : Int} {results : List TcpTestResult}
    (h : Aligned deps env (contextOf jobs batchId) timeout results)
    (applyBlobRenames : String → String) :
    ∃ reached ≤ jobs.length, (reached < jobs.length → StopSeen env reached) ∧
      ∀ i job result, jobs[i]? = some job → results[i]? = some result →
        (i < reached →
          Paired deps env (contextOf jobs batchId) timeout (i + 1) job.item job.domain result ∧
          (strategyBlocks applyBlobRenames
            (jobs.map (fun job => strategyTextFromItem deps job.item)))[i]? =
            some (appendStrategyDesyncs
              (applyBlobRenames (strategyTextFromItem deps job.item)) (i + 1))) ∧
        (reached ≤ i → result = skippedResult stoppedBeforeProbe job.item job.domain) := by
  obtain ⟨_, reached, hle, hseen, hres⟩ := h
  rw [contextOf_length] at hle hseen
  refine ⟨reached, hle, hseen, ?_⟩
  intro i job result hj hr
  have h := hres i job.item job.domain result (by rw [contextOf_pairs]; simp [hj]) hr
  refine ⟨fun hi => ⟨h.1 hi, ?_⟩, h.2⟩
  rw [strategyBlocks_getElem?, List.getElem?_map, hj]
  rfl

/-- A batch whose probe loop raises nothing accounts every job once and in
order. The job at position k gets the result of publishing the number k, under
which the conf lists its strategy, for its domain, unless the domain has no
address; a job that a stop kept from being reached gets the stop placeholder. Once run_batch is
entered, one row for each job is logged with the same result. Only when no
namespace could be acquired is there no probe at all. -/
theorem batch_pairs_results (deps : Deps) (env : Env) (applyBlobRenames : String → String)
    (jobs : List BridgeJob) (timeout : ℚ) (batchId : Int)
    (hok : ProbesRun deps env (contextOf jobs batchId) →
      ∀ e, runLuaBridgeBatch deps env (contextOf jobs batchId) timeout ≠ .error e) :
    ∃ results logged,
      runBridgeBatch deps env jobs timeout batchId =
        some ⟨List.zipWith accountFor jobs results, logged⟩ ∧
      results.length = jobs.length ∧
      (jobs ≠ [] → env.runnerStop = false →
        logged.map (fun row => ((row.item, row.domain), row.result)) =
          (jobs.map (fun job => (job.item, job.domain))).zip results) ∧
      ((env.entryStop = false ∧ env.acquired = false ∧
          results = jobs.map (fun job => skippedResult nsPoolExhausted job.item job.domain)) ∨
        ∃ reached ≤ jobs.length, (reached < jobs.length → StopSeen env reached) ∧
          ∀ i job result, jobs[i]? = some job → results[i]? = some result →
            (i < reached →
              Paired deps env (contextOf jobs batchId) timeout (i + 1) job.item job.domain result ∧
              (strategyBlocks applyBlobRenames
                (jobs.map (fun job => strategyTextFromItem deps job.item)))[i]? =
                some (appendStrategyDesyncs
                  (applyBlobRenames (strategyTextFromItem deps job.item)) (i + 1))) ∧
            (reached ≤ i → result = skippedResult stoppedBeforeProbe job.item job.domain)) := by
  by_cases hnil : jobs = []
  · subst hnil
    exact ⟨[], [], rfl, rfl, fun h => absurd rfl h, Or.inr ⟨0, Nat.le_refl _, by simp, by simp⟩⟩
  cases hstop : env.runnerStop with
  | true =>
      -- the runner returns no results, so the pool pads all of them
      have hrun : runProbeBatch deps env (contextOf jobs batchId) timeout = some ⟨[], []⟩ :=
        if_pos (Or.inr hstop)
      refine ⟨padResults jobs [], [], runBridgeBatch_eq hnil hrun (Nat.zero_le _),
        padResults_length (Nat.zero_le _), (fun _ h => by cases h), Or.inr ?_⟩
      refine ⟨0, Nat.zero_le _, fun _ => Or.inl hstop, ?_⟩
      intro i job result hj hr
      refine ⟨fun hi => absurd hi (Nat.not_lt_zero i), fun _ => ?_⟩
      simpa [padResults, hj] using hr.symm
  | false =>
      obtain ⟨outcome, ho, hrows, hal⟩ := runBatch_aligned timeout hstop hok
      have hitems : (contextOf jobs batchId).items ≠ [] := by simpa [contextOf] using hnil
      have hrun : runProbeBatch deps env (contextOf jobs batchId) timeout = some outcome := by
        rw [runProbeBatch, if_neg (by simp [hitems, hstop]), ho]
      have hlen : outcome.results.length = jobs.length := by
        rcases hal with hal | ⟨_, _, hal⟩
        · exact hal.1.trans (contextOf_length jobs batchId)
        · rw [hal, skippedBatchResult_length, contextOf_length]
      have hpad : padResults jobs outcome.results = outcome.results := by
        rw [padResults, List.drop_eq_nil_of_le hlen.ge, List.map_nil, List.append_nil]
      refine ⟨outcome.results, outcome.logged, ?_, hlen, fun _ _ => ?_, ?_⟩
      · rw [runBridgeBatch_eq hnil hrun hlen.le, hpad]
      · rw [← contextOf_pairs jobs batchId]
        exact hrows
      · rcases hal with hal | ⟨hentry, hacq, hal⟩
        · exact Or.inr (hal.jobs applyBlobRenames)
        · refine Or.inl ⟨hentry, hacq, ?_⟩
          rw [hal, skippedBatchResult, contextOf_pairs, List.map_map]
          rfl

def secureDeps : Deps where
  secureDns := true
  timingFor := fun _ timeout => timeout
  resolveDomainDns := fun dom => if dom = "b.example" then {} else ⟨some "192.0.2.1", "ok", "doh"⟩
  resolveDomainIps := fun dom => if dom = "b.example" then [] else ["192.0.2.1"]
  readLines := fun _ => []
  classifyFailPhase := fun error _ => if error = dnsNodataSkip then "dns_resolve" else "other"

/-- Nothing raises. The bridge is silent at the first generation, so the first
job is asked again, and the stop is seen before the third job. -/
def silentOnce : Env where
  runnerStop := false
  entryStop := false
  acquired := true
  dnsStop := false
  prepare := .ok ()
  boot := .ok ()
  loopStop := fun idx => idx = 3
  recycle := fun _ => .ok false
  debugToggled := fun _ => false
  heartbeatStale := fun idx => idx = 2
  reboot := fun _ => .ok ()
  gen := fun idx => if idx = 1 then 1 else idx + 1
  check := fun call =>
    if call.gen = 1 then .ok { error := "timeout", bridge := some ⟨1, [], false, false, 0⟩ }
    else .ok { success := true, httpCode := 200,
               bridge := some ⟨call.gen, ["APPLIED"], true, false, 0⟩ }
  retryReboot := fun _ => .ok ()
  retryGen := fun idx => idx + 1
  shutdown := .ok ()

def mixedJobs : List BridgeJob :=
  [⟨splitItem, "a.example", false⟩, ⟨fakeItem, "b.example", false⟩,
    ⟨splitItem, "b.example", false⟩]

theorem silentOnce_pairs : ∃ results logged,
    runBridgeBatch secureDeps silentOnce mixedJobs 5 7 =
      some ⟨List.zipWith accountFor mixedJobs results, logged⟩ ∧
    results.length = 3 ∧
    logged.map (fun row => ((row.item, row.domain), row.result)) =
      (mixedJobs.map (fun job => (job.item, job.domain))).zip results := by
  have hok : (runLuaBridgeBatch secureDeps silentOnce (contextOf mixedJobs 7) 5).isOk = true := by
    decide +kernel
  obtain ⟨results, logged, hrun, hlen, hrows, _⟩ :=
    batch_pairs_results secureDeps silentOnce id mixedJobs 5 7
      (fun _ e he => by rw [he] at hok; cases hok)
  exact ⟨results, logged, hrun, hlen, hrows (List.cons_ne_nil _ _) rfl⟩

end Blockchecks.BatchPairing
