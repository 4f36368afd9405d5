import Blockchecks.BatchFailure
import Blockchecks.QuarantineRuns

namespace Blockchecks.BatchInfra

open StrategyText Results BridgeWorkerPool BatchService BatchPairing BatchFailure
open Regex FailPhases OrderedDict Quarantine DomainQuarantine QuarantineRuns

/-- The quarantine of a worker pool, with the domains it hands to the scheduler
and the rows and list entries that a new quarantine writes. -/
structure QuarantinePool where
  quarantine : Option DomainQuarantine
  excludedDomains : Option (Finset String)
  persisted : List (String × String × Nat)
  denylisted : List String

def persistQuarantine (pool : QuarantinePool) (q : DomainQuarantine) (domain : String) :
    QuarantinePool :=
  match q.quarantined.get? domain with
  | some info =>
      { pool with
        persisted := pool.persisted ++ [(domain, info.reason, info.failed)]
        denylisted := if q.config.autoDenylist then pool.denylisted ++ [domain] else pool.denylisted }
  | none => { pool with persisted := pool.persisted ++ [(domain, "", 0)] }

def recordQuarantineHit (pool : QuarantinePool) (q : DomainQuarantine) (domain : String) (ok : Bool)
    (failPhase error : String) : QuarantinePool :=
  let (newly, q) := q.record domain ok none failPhase error
  let pool := { pool with quarantine := some q }
  match newly with
  | none => pool
  | some newly =>
      if newly = "" then pool
      else persistQuarantine
        { pool with excludedDomains := pool.excludedDomains.map (insert newly) } q newly

def accountWithQuarantine (pool : QuarantinePool) (job : BridgeJob) (ok : Bool)
    (result : TcpTestResult) : QuarantinePool :=
  match pool.quarantine with
  | none => pool
  | some q => recordQuarantineHit pool q job.domain ok result.failPhase result.error

def applyAccount (pool : QuarantinePool) : AccountCall → QuarantinePool
  | .accountOk job passed result => accountWithQuarantine pool job passed result
  | .accountSkipped _ => pool

/-- The text of the phase; the classifier raises only without an error text,
where no caller asks it. -/
def classifier (classes : CharClasses) (error : String) (httpCode : Int) : String :=
  ((classifyFailPhase classes error httpCode).map FailPhase.value).getD ""

def classified (classes : CharClasses) (deps : Deps) : Deps :=
  { deps with classifyFailPhase := classifier classes }

/-- The phase that a failure with this text alone is stored with. -/
def phaseText (classes : CharClasses) (error : String) : String :=
  if error = "" then "" else (phaseOfText classes error).value

variable {classes : CharClasses} {deps : Deps} {env : Env} {pool : QuarantinePool}
  {q : DomainQuarantine} {domain d failPhase error : String}

@[simp] theorem persistQuarantine_quarantine (pool : QuarantinePool) (q : DomainQuarantine)
    (domain : String) : (persistQuarantine pool q domain).quarantine = pool.quarantine := by
  rw [persistQuarantine]
  split <;> rfl

theorem recordQuarantineHit_quarantine (pool : QuarantinePool) (q : DomainQuarantine)
    (domain : String) (ok : Bool) (failPhase error : String) :
    (recordQuarantineHit pool q domain ok failPhase error).quarantine =
      some (q.record domain ok none failPhase error).2 := by
  simp only [recordQuarantineHit]
  split
  · rfl
  · split <;> simp

theorem accountWithQuarantine_quarantine (pool : QuarantinePool) (job : BridgeJob) (ok : Bool)
    (result : TcpTestResult) :
    (accountWithQuarantine pool job ok result).quarantine = pool.quarantine.map
      (fun q => (q.record job.domain ok none result.failPhase result.error).2) := by
  rw [accountWithQuarantine]
  split
  next h => simp [h]
  next q h => simp [h, recordQuarantineHit_quarantine]

theorem failResult_failPhase (classes : CharClasses) (deps : Deps) (ctx : BatchContext)
    (error : String) (item : StrategyItem) (dom : String) :
    (failResult (classified classes deps) ctx error item dom).failPhase = phaseText classes error := by
  by_cases h : error = ""
  · simp [failResult, tcpResultFromData, phaseText, h]
  · simp [failResult, tcpResultFromData, phaseText, h, classified, classifier,
      classifyFailPhase_of_text]

theorem accountFor_failResult (classes : CharClasses) (deps : Deps) (ctx : BatchContext)
    (error : String) (job : BridgeJob) (h : error ≠ stoppedBeforeProbe) :
    accountFor job (failResult (classified classes deps) ctx error job.item job.domain) =
      .accountOk job false (failResult (classified classes deps) ctx error job.item job.domain) :=
  if_neg h

theorem accountFor_stopped (deps : Deps) (ctx : BatchContext) (job : BridgeJob) :
    accountFor job (failResult deps ctx stoppedBeforeProbe job.item job.domain) =
      .accountSkipped job :=
  if_pos rfl

/-- A failed batch accounts one failure for each job, all with the same text. -/
theorem failed_batch_accounted {jobs : List BridgeJob} {timeout : ℚ} {batchId : Int}
    {finished : Nat} (hnil : jobs ≠ [])
    (hreach : ProbesRun deps env (contextOf jobs batchId))
    (hraise : RaisesAfter deps env (contextOf jobs batchId) timeout finished error) :
    ∃ logged, runBridgeBatch deps env jobs timeout batchId = some ⟨jobs.map (fun job =>
      accountFor job (failResult deps (contextOf jobs batchId) error job.item job.domain)), logged⟩ := by
  obtain ⟨hrun, hentry, hacq, hdns, hsome⟩ := hreach
  have hlen : (batchFailResults deps (contextOf jobs batchId) error).length = jobs.length := by
    rw [batchFailResults_length, contextOf_length]
  obtain ⟨outcome, ho, hres, _⟩ := finalizeBatch_full
    (batchFailResults_length deps (contextOf jobs batchId) error) deps.resolveDomainDns
  have hprobe : runProbeBatch deps env (contextOf jobs batchId) timeout = some outcome := by
    have hitems : (contextOf jobs batchId).items ≠ [] := by simpa [contextOf] using hnil
    rw [runProbeBatch, if_neg (by simp [hitems, hrun])]
    simp only [runBatch, hentry, hacq, hdns, hsome, syncResults, hraise.runLuaBridgeBatch_error]
    exact ho
  refine ⟨outcome.logged, ?_⟩
  rw [runBridgeBatch_eq hnil hprobe (by rw [hres, hlen]), hres]
  congr 2
  have hpad : padResults jobs (batchFailResults deps (contextOf jobs batchId) error) =
      batchFailResults deps (contextOf jobs batchId) error := by
    rw [padResults, hlen, List.drop_length, List.map_nil, List.append_nil]
  rw [hpad, batchFailResults, contextOf_pairs, List.map_map, List.zipWith_map_right,
    List.zipWith_self]
  rfl

def recordAll (q : DomainQuarantine) (jobs : List BridgeJob) (failPhase error : String) :
    DomainQuarantine :=
  jobs.foldl (fun q job => (q.record job.domain false none failPhase error).2) q

theorem applyAccounts_quarantine (ctx : BatchContext) (jobs : List BridgeJob)
    (h : error ≠ stoppedBeforeProbe) (pool : QuarantinePool) :
    ((jobs.map (fun job => accountFor job
        (failResult (classified classes deps) ctx error job.item job.domain))).foldl
      applyAccount pool).quarantine =
      pool.quarantine.map (fun q => recordAll q jobs (phaseText classes error) error) := by
  induction jobs generalizing pool with
  | nil => simp [recordAll]
  | cons job jobs ih =>
      rw [List.map_cons, List.foldl_cons, ih, accountFor_failResult classes deps ctx error job h,
        applyAccount, accountWithQuarantine_quarantine, failResult_failPhase, Option.map_map]
      rfl

theorem applyAccounts_stopped (ctx : BatchContext) (jobs : List BridgeJob) (pool : QuarantinePool) :
    (jobs.map (fun job => accountFor job
      (failResult deps ctx stoppedBeforeProbe job.item job.domain))).foldl applyAccount pool = pool := by
  induction jobs with
  | nil => rfl
  | cons job jobs ih => rw [List.map_cons, List.foldl_cons, accountFor_stopped, applyAccount, ih]

/-- No call of record lowers a counter. -/
theorem record_count_le (q : DomainQuarantine) (domain : String) (passed : Bool)
    (status : Option String) (failPhase error : String) (counter : Counter) (d : String) :
    counter.count (q.statsOf d) ≤
      counter.count ((q.record domain passed status failPhase error).2.statsOf d) := by
  rcases record_cases q domain passed status failPhase error with heq | heq | ⟨_, heq⟩
  · rw [heq]
  · rw [heq]
    by_cases hd : d = domain
    · subst hd
      cases counter <;> simp [recordPass, statsOf, Dict.get?_set, Counter.count]
    · simp [recordPass, statsOf, Dict.get?_set, hd]
  · rw [heq]
    by_cases hd : d = domain
    · subst hd
      simp only [recordFail, statsOf, weigh_stats, Dict.get?_set, if_pos, Option.getD_some]
      by_cases hc : counter = failCounter failPhase
      · subst hc
        simp
      · rw [count_setCount_of_ne hc]
    · simp [recordFail, statsOf, Dict.get?_set, hd]

theorem recordAll_count_le (q : DomainQuarantine) (jobs : List BridgeJob) (failPhase error : String)
    (counter : Counter) (d : String) :
    counter.count (q.statsOf d) ≤ counter.count ((recordAll q jobs failPhase error).statsOf d) := by
  induction jobs generalizing q with
  | nil => exact Nat.le_refl _
  | cons job jobs ih => exact (record_count_le q job.domain false none _ _ counter d).trans (ih _)

/-- A failure that counts raises the counter of its phase. -/
theorem record_counts (he : q.config.enabled = true) (hd : domain ∉ q.excludeDomains)
    (hcount : isInfraFailPhase failPhase error = false ∨ failPhase = FailPhase.dnsResolve.value) :
    (failCounter failPhase).count ((q.record domain false none failPhase error).2.statsOf domain) =
      (failCounter failPhase).count (q.statsOf domain) + 1 := by
  have hfail : q.record domain false none failPhase error =
      q.recordFail (failCounter failPhase) domain := by
    simp only [record, he, hd, countsPass, failCounter]
    rcases hcount with hinfra | hdns
    · by_cases hdns : failPhase = FailPhase.dnsResolve.value <;> simp [hdns, hinfra]
    · simp [hdns]
  rw [hfail]
  simp [recordFail, statsOf, Dict.get?_set]

theorem recordAll_counts {jobs : List BridgeJob} (he : q.config.enabled = true)
    (hcount : isInfraFailPhase failPhase error = false ∨ failPhase = FailPhase.dnsResolve.value)
    (h : recordAll q jobs failPhase error = q) : ∀ job ∈ jobs, job.domain ∈ q.excludeDomains := by
  induction jobs with
  | nil => exact fun _ hj => absurd hj List.not_mem_nil
  | cons job jobs ih =>
      by_cases hd : job.domain ∈ q.excludeDomains
      · have hskip : q.record job.domain false none failPhase error = (none, q) :=
          record_ignored (Or.inl hd)
        rw [recordAll, List.foldl_cons, hskip] at h
        exact List.forall_mem_cons.mpr ⟨hd, ih h⟩
      · have hone := record_counts he hd hcount
        have hrest := recordAll_count_le (q.record job.domain false none failPhase error).2 jobs
          failPhase error (failCounter failPhase) job.domain
        rw [recordAll, List.foldl_cons, ← recordAll] at h
        rw [h, hone] at hrest
        exact absurd hrest (Nat.not_succ_le_self _)

theorem recordAll_ignored {jobs : List BridgeJob}
    (h : ∀ job ∈ jobs, q.record job.domain false none failPhase error = (none, q)) :
    recordAll q jobs failPhase error = q := by
  induction jobs with
  | nil => rfl
  | cons job jobs ih =>
      rw [recordAll, List.foldl_cons, h job List.mem_cons_self]
      exact ih (fun job' hj => h job' (List.mem_cons_of_mem _ hj))

theorem recordAll_eq_self_iff (q : DomainQuarantine) (jobs : List BridgeJob)
    (failPhase error : String) :
    recordAll q jobs failPhase error = q ↔
      q.config.enabled = false ∨
      isInfraFailPhase failPhase error = true ∧ failPhase ≠ FailPhase.dnsResolve.value ∨
      ∀ job ∈ jobs, job.domain ∈ q.excludeDomains := by
  constructor
  · intro h
    by_cases he : q.config.enabled = true
    · by_cases hcount : isInfraFailPhase failPhase error = true ∧ failPhase ≠ FailPhase.dnsResolve.value
      · exact Or.inr (Or.inl hcount)
      · rw [not_and_or, Bool.not_eq_true, not_ne_iff] at hcount
        exact Or.inr (Or.inr (recordAll_counts he hcount h))
    · exact Or.inl (Bool.not_eq_true _ ▸ he)
  · intro h
    apply recordAll_ignored
    intro job hj
    rcases h with he | hinfra | hall
    · rw [record, if_pos (Or.inl (by simp [he]))]
    · exact record_ignored (Or.inr ⟨rfl, hinfra⟩)
    · exact record_ignored (Or.inl (hall job hj))

/-- The text of a failed batch is taken as an infrastructure failure, or as the
placeholder of a stop. -/
def InfraText (classes : CharClasses) (error : String) : Prop :=
  error = stoppedBeforeProbe ∨
    isInfraFailPhase (phaseText classes error) error = true ∧
      phaseText classes error ≠ FailPhase.dnsResolve.value

/-- When the synchronous part of a batch raises, accounting its failures leaves
the quarantine as it was exactly when there is none or it is switched off, when
the text is one of an infrastructure failure, or when all domains of the batch
are quarantined already. -/
theorem failed_batch_keeps_quarantine_iff (classes : CharClasses) (deps : Deps) (env : Env)
    (jobs : List BridgeJob) (timeout : ℚ) (batchId : Int) (finished : Nat) (error : String)
    (pool : QuarantinePool)
    (hreach : ProbesRun (classified classes deps) env (contextOf jobs batchId))
    (hraise : RaisesAfter (classified classes deps) env (contextOf jobs batchId) timeout finished error) :
    ∃ run, runBridgeBatch (classified classes deps) env jobs timeout batchId = some run ∧
      ((run.accounted.foldl applyAccount pool).quarantine = pool.quarantine ↔
        InfraText classes error ∨ ∀ q, pool.quarantine = some q →
          q.config.enabled = false ∨ ∀ job ∈ jobs, job.domain ∈ q.excludeDomains) := by
  by_cases hnil : jobs = []
  · subst hnil
    refine ⟨⟨[], []⟩, rfl, iff_of_true rfl (Or.inr ?_)⟩
    exact fun q _ => Or.inr (fun job hj => absurd hj List.not_mem_nil)
  · obtain ⟨logged, hrun⟩ := failed_batch_accounted hnil hreach hraise
    refine ⟨_, hrun, ?_⟩
    by_cases hstop : error = stoppedBeforeProbe
    · subst hstop
      rw [applyAccounts_stopped]
      exact iff_of_true rfl (Or.inl (Or.inl rfl))
    · rw [applyAccounts_quarantine _ jobs hstop pool]
      cases hq : pool.quarantine with
      | none => simp
      | some q =>
          rw [Option.map_some, Option.some.injEq, recordAll_eq_self_iff]
          simp only [InfraText, hstop, Option.some.injEq, false_or, forall_eq']
          tauto

def asciiClasses : CharClasses := ⟨isWordChar, Char.isDigit⟩

def pairJobs : List BridgeJob := [⟨splitItem, "a.example", false⟩, ⟨fakeItem, "a.example", false⟩]

def shmError : String := "[Errno 13] Permission denied: '/dev/shm/blockchecks/bs_0'"

def shmDenied : Env := { silentOnce with prepare := .error shmError }

def freshPool (config : QuarantineConfig) : QuarantinePool := ⟨some (fresh config), some ∅, [], []⟩

theorem shmDenied_keeps_quarantine :
    ProbesRun (classified asciiClasses secureDeps) shmDenied (contextOf pairJobs 7) ∧
    RaisesAfter (classified asciiClasses secureDeps) shmDenied (contextOf pairJobs 7) 5 0 shmError ∧
    ∃ run, runBridgeBatch (classified asciiClasses secureDeps) shmDenied pairJobs 5 7 = some run ∧
      (run.accounted.foldl applyAccount (freshPool atTwo)).quarantine = some (fresh atTwo) := by
  have hreach : ProbesRun (classified asciiClasses secureDeps) shmDenied (contextOf pairJobs 7) :=
    ⟨rfl, rfl, rfl, rfl, by decide +kernel⟩
  have hraise : RaisesAfter (classified asciiClasses secureDeps) shmDenied (contextOf pairJobs 7) 5 0
      shmError := .prepare rfl
  obtain ⟨run, hrun, hiff⟩ := failed_batch_keeps_quarantine_iff asciiClasses secureDeps shmDenied
    pairJobs 5 7 0 shmError (freshPool atTwo) hreach hraise
  refine ⟨hreach, hraise, run, hrun, hiff.mpr (Or.inl (Or.inr ⟨?_, ?_⟩))⟩ <;> decide +kernel

/-- Full shared memory aborts the batch after a passed probe, and the abort
counts twice against the domain, which is then quarantined. -/
theorem fullShm_quarantines_domain :
    ProbesRun (classified asciiClasses secureDeps) (publishFailsAt 2) (contextOf pairJobs 7) ∧
    RaisesAfter (classified asciiClasses secureDeps) (publishFailsAt 2) (contextOf pairJobs 7) 5 1
      publishError ∧
    ∃ run q, runBridgeBatch (classified asciiClasses secureDeps) (publishFailsAt 2) pairJobs 5 7 =
        some run ∧
      (run.accounted.foldl applyAccount (freshPool atTwo)).quarantine = some q ∧
      (fresh atTwo).stats.get? "a.example" = none ∧
      q.stats.get? "a.example" = some { attempts := 2 } ∧
      (fresh atTwo).excludeDomains = [] ∧ q.excludeDomains = ["a.example"] := by
  have hraise : RaisesAfter (classified asciiClasses secureDeps) (publishFailsAt 2)
      (contextOf pairJobs 7) 5 1 publishError := by
    refine .job rfl rfl ?_ rfl rfl rfl
    intro i it dm hi hp
    obtain rfl : i = 0 := Nat.lt_one_iff.mp hi
    obtain ⟨rfl, rfl⟩ := Prod.mk.inj (Option.some.inj hp)
    exact ⟨rfl, passAnswer, rfl⟩
  have hends : (runBridgeBatch (classified asciiClasses secureDeps) (publishFailsAt 2) pairJobs 5 7).any
      (fun run => (run.accounted.foldl applyAccount (freshPool atTwo)).quarantine.any (fun q =>
        q.stats.get? "a.example" = some { attempts := 2 } ∧ q.excludeDomains = ["a.example"])) =
      true := by decide +kernel
  obtain ⟨run, hrun, hq⟩ := (Option.any_eq_true _ _).mp hends
  obtain ⟨q, hq, hdomain⟩ := (Option.any_eq_true _ _).mp hq
  obtain ⟨hstats, hexclude⟩ := of_decide_eq_true hdomain
  exact ⟨⟨rfl, rfl, rfl, rfl, by decide +kernel⟩, hraise, run, q, hrun, hq, rfl, hstats, rfl, hexclude⟩

end Blockchecks.BatchInfra
