import Blockchecks.BatchPairing

namespace Blockchecks.BatchFailure

open StrategyText Results BatchService BatchPairing

variable {deps : Deps} {env : Env} {ctx : BatchContext} {timeout : ℚ} {finished : Nat} {error : String}

/-- The text of the exception that leaves the session: the shutdown in the
finally block raises last. -/
def leaving (env : Env) (error : String) : String :=
  match env.shutdown with
  | .error e => e
  | .ok () => error

/-- The synchronous part raises this text after so many finished jobs. -/
inductive RaisesAfter (deps : Deps) (env : Env) (ctx : BatchContext) (timeout : ℚ) :
    Nat → String → Prop
  | prepare {e : String} (hprepare : env.prepare = .error e) : RaisesAfter deps env ctx timeout 0 e
  | boot {e : String} (hprepare : env.prepare = .ok ()) (hboot : env.boot = .error e) :
      RaisesAfter deps env ctx timeout 0 (leaving env e)
  | job {finished : Nat} {item : StrategyItem} {dom e : String} (hprepare : env.prepare = .ok ())
      (hboot : env.boot = .ok ())
      (hbefore : ∀ i it dm, i < finished → (ctx.items.zip ctx.domains)[i]? = some (it, dm) →
        env.loopStop (i + 1) = false ∧ ∃ data, jobData deps env ctx timeout (i + 1) it dm = .ok data)
      (hat : (ctx.items.zip ctx.domains)[finished]? = some (item, dom))
      (hstop : env.loopStop (finished + 1) = false)
      (hraise : jobData deps env ctx timeout (finished + 1) item dom = .error e) :
      RaisesAfter deps env ctx timeout finished (leaving env e)

def KeepsFinished (deps : Deps) (env : Env) (ctx : BatchContext) (timeout : ℚ) (finished : Nat)
    (error : String) (results : List TcpTestResult) : Prop :=
  ∀ i item dom result, (ctx.items.zip ctx.domains)[i]? = some (item, dom) →
    results[i]? = some result →
    (i < finished → ∃ data, jobData deps env ctx timeout (i + 1) item dom = .ok data ∧
      result = tcpResultFromData deps item dom data) ∧
    (finished ≤ i → result = failResult deps ctx error item dom)

def SaysOnly (error : String) (answer : ProbeData) : Prop :=
  { answer with batchId := 0 } = ({ error := error } : ProbeData)

/-- The world answered a job with nothing but this text: its domain has no
address and the text is that of the skip, or the probe said only this error. -/
def Echoes (deps : Deps) (env : Env) (ctx : BatchContext) (timeout : ℚ) (error : String)
    (idx : Nat) (item : StrategyItem) (dom : String) : Prop :=
  if deps.secureDns && (deps.resolveDomainDns dom).noAddress then error = dnsNodataSkip
  else ∃ answer, probeJob deps env ctx timeout idx item dom = .ok answer ∧ SaysOnly error answer

theorem saysOnly_iff {answer : ProbeData} {item : StrategyItem} {dom : String} :
    tcpResultFromData deps item dom { answer with batchId := ctx.batchId } =
      failResult deps ctx error item dom ↔ SaysOnly error answer := by
  constructor
  · intro h
    have hbridge : answer.bridge = none := by
      simpa [tcpResultFromData, failResult] using congrArg TcpTestResult.bridgeApplied h
    simp only [tcpResultFromData, failResult, TcpTestResult.mk.injEq] at h
    simp only [SaysOnly, ProbeData.mk.injEq]
    tauto
  · intro h
    obtain ⟨success, httpCode, latencyMs, contentLen, contentOk, throttled, readRateBps, text, usedIp,
      resolveName, bridge, batchId⟩ := answer
    simp only [SaysOnly, ProbeData.mk.injEq] at h
    obtain ⟨rfl, rfl, rfl, rfl, rfl, rfl, rfl, rfl, rfl, rfl, rfl, _⟩ := h
    rfl

theorem jobData_fails_iff {idx : Nat} {item : StrategyItem} {dom : String} {data : ProbeData}
    (h : jobData deps env ctx timeout idx item dom = .ok data) :
    tcpResultFromData deps item dom data = failResult deps ctx error item dom ↔
      Echoes deps env ctx timeout error idx item dom := by
  rw [Echoes]
  rcases jobData_ok h with ⟨hsecure, hnone, rfl⟩ | ⟨hdns, answer, hjob, rfl⟩
  · rw [hsecure, hnone, Bool.and_self, if_pos rfl]
    constructor
    · intro heq
      exact (congrArg TcpTestResult.error heq).symm
    · rintro rfl
      rfl
  · rw [hdns, if_neg Bool.false_ne_true, saysOnly_iff]
    constructor
    · intro hsays
      exact ⟨answer, hjob, hsays⟩
    · rintro ⟨answer', hjob', hsays⟩
      rwa [Except.ok.inj (hjob.symm.trans hjob')]

theorem probeLoop_raises {pairs : List (StrategyItem × String)} {idx : Nat} {item : StrategyItem}
    {dom : String}
    (hbefore : ∀ i it dm, i < finished → pairs[i]? = some (it, dm) →
      env.loopStop (idx + i) = false ∧ ∃ data, jobData deps env ctx timeout (idx + i) it dm = .ok data)
    (hat : pairs[finished]? = some (item, dom)) (hstop : env.loopStop (idx + finished) = false)
    (hraise : jobData deps env ctx timeout (idx + finished) item dom = .error error) :
    (probeLoop deps env ctx timeout idx pairs).2 = some error := by
  induction finished generalizing pairs idx with
  | zero =>
      cases pairs with
      | nil => cases hat
      | cons p rest =>
          obtain rfl : p = (item, dom) := Option.some.inj hat
          simp only [probeLoop, Nat.add_zero] at hstop hraise ⊢
          rw [hstop, hraise, if_neg Bool.false_ne_true]
  | succ finished ih =>
      cases pairs with
      | nil => cases hat
      | cons p rest =>
          obtain ⟨it, dm⟩ := p
          obtain ⟨hgo, data, hdata⟩ := hbefore 0 it dm (Nat.succ_pos _) rfl
          rw [Nat.add_zero] at hgo hdata
          rw [Nat.add_comm finished 1, ← Nat.add_assoc] at hstop hraise
          have hrest := ih (fun i it dm hi hp => by
            have h := hbefore (i + 1) it dm (Nat.succ_lt_succ hi) (by simpa using hp)
            rwa [Nat.add_comm i 1, ← Nat.add_assoc] at h) (by simpa using hat) hstop hraise
          rw [probeLoop, hgo, if_neg Bool.false_ne_true, hdata]
          exact hrest

theorem session_error {e : String} (hprepare : env.prepare = .ok ())
    (hraise : (sessionRun deps env ctx timeout).2 = some e) :
    runLuaBridgeBatch deps env ctx timeout = .error (leaving env e) := by
  rw [runLuaBridgeBatch, leaving]
  rw [hprepare]
  cases hr : sessionRun deps env ctx timeout with
  | mk results raised =>
      rw [hr] at hraise
      obtain rfl : raised = some e := hraise
      cases hs : env.shutdown with
      | error e' => rfl
      | ok u => rfl

theorem RaisesAfter.runLuaBridgeBatch_error (h : RaisesAfter deps env ctx timeout finished error) :
    runLuaBridgeBatch deps env ctx timeout = .error error := by
  cases h with
  | prepare hprepare => simp only [runLuaBridgeBatch, hprepare, bind, Except.bind]
  | boot hprepare hboot => exact session_error hprepare (by rw [sessionRun, hboot])
  | job hprepare hboot hbefore hat hstop hraise =>
      apply session_error hprepare
      rw [sessionRun, hboot]
      refine probeLoop_raises (fun i it dm hi hp => ?_) hat (Nat.add_comm _ 1 ▸ hstop)
        (Nat.add_comm _ 1 ▸ hraise)
      rw [Nat.add_comm 1 i]
      exact hbefore i it dm hi hp

theorem RaisesAfter.finished_ok (h : RaisesAfter deps env ctx timeout finished error) {i : Nat}
    {item : StrategyItem} {dom : String} (hi : i < finished)
    (hp : (ctx.items.zip ctx.domains)[i]? = some (item, dom)) :
    ∃ data, jobData deps env ctx timeout (i + 1) item dom = .ok data := by
  cases h with
  | prepare | boot => exact absurd hi (Nat.not_lt_zero i)
  | job hprepare hboot hbefore hat hstop hraise => exact (hbefore i item dom hi hp).2

theorem batchFailResults_length (deps : Deps) (ctx : BatchContext) (error : String) :
    (batchFailResults deps ctx error).length = ctx.items.length := by
  rw [batchFailResults, List.length_map, pairs_length]

theorem batchFailResults_keeps_iff (h : RaisesAfter deps env ctx timeout finished error) :
    KeepsFinished deps env ctx timeout finished error (batchFailResults deps ctx error) ↔
      ∀ i item dom, i < finished → (ctx.items.zip ctx.domains)[i]? = some (item, dom) →
        Echoes deps env ctx timeout error (i + 1) item dom := by
  have hget {i : Nat} {item : StrategyItem} {dom : String}
      (hp : (ctx.items.zip ctx.domains)[i]? = some (item, dom)) :
      (batchFailResults deps ctx error)[i]? = some (failResult deps ctx error item dom) := by
    rw [batchFailResults, List.getElem?_map, hp]
    rfl
  constructor
  · intro hkeep i item dom hi hp
    obtain ⟨data, hdata, heq⟩ := (hkeep i item dom _ hp (hget hp)).1 hi
    exact (jobData_fails_iff hdata).mp heq.symm
  · intro hecho i item dom result hp hr
    obtain rfl := Option.some.inj ((hget hp).symm.trans hr)
    refine ⟨fun hi => ?_, fun _ => rfl⟩
    obtain ⟨data, hdata⟩ := h.finished_ok hi hp
    exact ⟨data, hdata, ((jobData_fails_iff hdata).mpr (hecho i item dom hi hp)).symm⟩

/-- When the synchronous part raises, every job gets a result, which is logged.
The results of the finished jobs are kept exactly when each of these jobs was
answered with nothing but the exception text. -/
theorem failed_batch_keeps_finished_iff (deps : Deps) (env : Env) (ctx : BatchContext) (timeout : ℚ)
    (finished : Nat) (error : String) (hreach : ProbesRun deps env ctx)
    (hraise : RaisesAfter deps env ctx timeout finished error) :
    ∃ outcome, runBatch deps env ctx timeout = some outcome ∧
      outcome.results.length = ctx.items.length ∧ RowsOf ctx outcome ∧
      (KeepsFinished deps env ctx timeout finished error outcome.results ↔
        ∀ i item dom, i < finished → (ctx.items.zip ctx.domains)[i]? = some (item, dom) →
          Echoes deps env ctx timeout error (i + 1) item dom) := by
  obtain ⟨_, hentry, hacq, hdns, hsome⟩ := hreach
  obtain ⟨outcome, ho, hres, hrows⟩ :=
    finalizeBatch_full (batchFailResults_length deps ctx error) deps.resolveDomainDns
  refine ⟨outcome, ?_, hres ▸ batchFailResults_length deps ctx error, hrows,
    hres ▸ batchFailResults_keeps_iff hraise⟩
  simp only [runBatch, hentry, hacq, hdns, hsome, syncResults, hraise.runLuaBridgeBatch_error]
  exact ho

def publishError : String := "IPC publish failed for bs_0: [Errno 28] No space left on device"

def publishFailsAt (position : Nat) : Env :=
  { silentOnce with
    loopStop := fun _ => false
    check := fun call =>
      if call.strategyId = position then .error publishError
      else .ok { success := true, httpCode := 200,
                 bridge := some ⟨call.gen, ["APPLIED"], true, false, 0⟩ } }

def passingPair : BatchContext :=
  ⟨[splitItem, fakeItem], ["a.example", "a.example"], 7, "tls12", rfl⟩

def passAnswer : ProbeData :=
  { success := true, httpCode := 200, bridge := some ⟨1, ["APPLIED"], true, false, 0⟩, batchId := 7 }

theorem publishFailsAt_reached (position : Nat) :
    ProbesRun secureDeps (publishFailsAt position) passingPair :=
  ⟨rfl, rfl, rfl, rfl, by decide +kernel⟩

/-- The first job has passed when the publication for the second one fails; both
are reported as failed. -/
theorem publishFailsAt_loses_pass :
    ProbesRun secureDeps (publishFailsAt 2) passingPair ∧
    RaisesAfter secureDeps (publishFailsAt 2) passingPair 5 1 publishError ∧
    jobData secureDeps (publishFailsAt 2) passingPair 5 1 splitItem "a.example" = .ok passAnswer ∧
    ∃ outcome, runBatch secureDeps (publishFailsAt 2) passingPair 5 = some outcome ∧
      outcome.results.map (·.success) = [false, false] ∧
      outcome.logged.map (·.result.success) = [false, false] ∧
      ¬ KeepsFinished secureDeps (publishFailsAt 2) passingPair 5 1 publishError outcome.results := by
  have hfirst : jobData secureDeps (publishFailsAt 2) passingPair 5 1 splitItem "a.example" =
      .ok passAnswer := rfl
  refine ⟨publishFailsAt_reached 2, ?_, hfirst, _, rfl, by decide +kernel, by decide +kernel, ?_⟩
  · refine .job rfl rfl ?_ rfl rfl rfl
    intro i it dm hi hp
    obtain rfl : i = 0 := Nat.lt_one_iff.mp hi
    obtain ⟨rfl, rfl⟩ := Prod.mk.inj (Option.some.inj hp)
    exact ⟨rfl, passAnswer, hfirst⟩
  · intro hkeep
    obtain ⟨data, hdata, heq⟩ := (hkeep 0 splitItem "a.example" _ rfl rfl).1 Nat.one_pos
    obtain rfl := Except.ok.inj (hfirst.symm.trans hdata)
    exact absurd (congrArg TcpTestResult.success heq) (by decide)

theorem publishFailsAt_first_keeps :
    ProbesRun secureDeps (publishFailsAt 1) passingPair ∧
    RaisesAfter secureDeps (publishFailsAt 1) passingPair 5 0 publishError ∧
    ∃ outcome, runBatch secureDeps (publishFailsAt 1) passingPair 5 = some outcome ∧
      KeepsFinished secureDeps (publishFailsAt 1) passingPair 5 0 publishError outcome.results := by
  have hraise : RaisesAfter secureDeps (publishFailsAt 1) passingPair 5 0 publishError :=
    .job rfl rfl (fun i _ _ hi _ => absurd hi (Nat.not_lt_zero i)) rfl rfl rfl
  obtain ⟨outcome, ho, _, _, hiff⟩ := failed_batch_keeps_finished_iff secureDeps (publishFailsAt 1)
    passingPair 5 0 publishError (publishFailsAt_reached 1) hraise
  exact ⟨publishFailsAt_reached 1, hraise, outcome, ho,
    hiff.mpr (fun i _ _ hi _ => absurd hi (Nat.not_lt_zero i))⟩

end Blockchecks.BatchFailure
