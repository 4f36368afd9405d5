import Blockchecks.BatchScheduler
import Blockchecks.BridgeWorkerPool
import Blockchecks.Runs

namespace Blockchecks.AdaptiveRunner

open ScanWeights StrategyText Results AdaptiveQueue BatchScheduler BridgeWorkerPool

inductive After where
  | exit
  | runSingle (job : AdaptiveJob)
  | pushAgain (job : AdaptiveJob)
  | bottom
  deriving DecidableEq

inductive Pc where
  | start
  | head
  | popped (job : AdaptiveJob)
  | flush (k : After)
  | probing (batch : Batch) (k : After)
  | accounting (batch : Batch) (rest : List (AdaptiveJob × TcpTestResult)) (k : After)
  | releasing (batch : Batch) (k : After)
  | resume (k : After)
  | single (job : AdaptiveJob)
  | singleReleasing (job : AdaptiveJob)
  | afterSingle
  | pushed
  | bottom
  | returned
  deriving DecidableEq

structure Worker where
  acc : BatchJobAccumulator
  pc : Pc

structure Stats where
  done : Nat := 0
  skipped : Nat := 0
  passed : Nat := 0
  deriving DecidableEq, Repr

/-- An adaptive run of k + 1 workers. The last two fields record the jobs that
pops returned and the jobs that were marked done, latest first. -/
structure Run (k : Nat) where
  queue : AdaptiveJobQueue
  isolation : DomainIsolationPool
  quarantined : Finset String
  stop : Bool
  stats : Stats
  workers : Fin (k + 1) → Worker
  handed : List AdaptiveJob
  accounted : List AdaptiveJob

/-- The scheduler's choices. A batch returns at most one result for each job;
newly tells whether the quarantine takes the domain of a failed probe. -/
inductive Action (k : Nat) where
  | setStop
  | start (w : Fin (k + 1))
  | move (w : Fin (k + 1))
  | pop (w : Fin (k + 1)) (rng : Rng)
  | batchReturns (w : Fin (k + 1)) (results : List TcpTestResult)
  | account (w : Fin (k + 1)) (newly : Bool)
  | singleReturns (w : Fin (k + 1)) (result : TcpTestResult) (newly : Bool)
  | release (w : Fin (k + 1))

def toBridgeJob (job : AdaptiveJob) : BridgeJob := ⟨job.item, job.domain, job.fanout⟩

def pushOr (wk : Worker) (job : AdaptiveJob) (refused : Pc) : Worker :=
  match wk.acc.push job with
  | some acc => ⟨acc, .pushed⟩
  | none => { wk with pc := refused }

/-- The steps of a worker that touch only its own state and the stop event. -/
def localStep (stop : Bool) (wk : Worker) : Option Worker :=
  match wk.pc with
  | .head => if stop then some { wk with pc := .flush .exit } else none
  | .popped job =>
      if job.fanout then some { wk with pc := .flush (.runSingle job) }
      else some (pushOr wk job (.flush (.pushAgain job)))
  | .flush k =>
      if wk.acc.jobs = [] then some ⟨wk.acc.flush.2, .resume k⟩
      else some ⟨wk.acc.flush.2, .probing wk.acc.flush.1 k⟩
  | .accounting batch [] k => some { wk with pc := .releasing batch k }
  | .resume .exit => some { wk with pc := .returned }
  | .resume (.runSingle job) => some { wk with pc := .single job }
  | .resume (.pushAgain job) => some (pushOr wk job (.single job))
  | .resume .bottom => some { wk with pc := .bottom }
  | .afterSingle => some { wk with pc := if stop then .returned else .head }
  | .pushed => some { wk with pc := if wk.acc.isFull then .flush .bottom else .bottom }
  | .bottom => some { wk with pc := if stop then .returned else .head }
  | _ => none

variable {k : Nat}

namespace Run

def put (s : Run k) (w : Fin (k + 1)) (wk : Worker) : Run k :=
  { s with workers := Function.update s.workers w wk }

def setPc (s : Run k) (w : Fin (k + 1)) (pc : Pc) : Run k :=
  s.put w { s.workers w with pc := pc }

/-- The stop test passed: pop_isolated. A free asyncio lock is taken without
suspending and no task suspends while it holds one, so the snapshot and the
pop are one step. -/
def popIsolated (s : Run k) (w : Fin (k + 1)) (rng : Rng) : Option (Run k) :=
  (s.queue.pop (s.isolation.excludedSnapshot s.quarantined) rng).map (fun
    | (none, q) => { s with queue := q }.setPc w (.flush .exit)
    | (some job, q) => { s with
        queue := q
        isolation := { s.isolation with
          activeDomains := insert job.domain s.isolation.activeDomains }
        handed := job :: s.handed }.setPc w (.popped job))

def markDone (s : Run k) (job : AdaptiveJob) (passed : Bool) (stats : Stats) : Run k :=
  { s with
    queue := (s.queue.markDone job passed).2
    stats := stats
    accounted := job :: s.accounted }

def accountSkipped (s : Run k) (job : AdaptiveJob) : Run k :=
  s.markDone job false { s.stats with done := s.stats.done + 1, skipped := s.stats.skipped + 1 }

def quarantine (s : Run k) (domain : String) : Run k :=
  { s with
    queue := s.queue.excludeDomain domain
    quarantined := insert domain s.quarantined }

def account (s : Run k) (job : AdaptiveJob) (ok newly : Bool) : Run k :=
  let s := s.markDone job ok { s.stats with
    done := s.stats.done + 1
    passed := if ok then s.stats.passed + 1 else s.stats.passed }
  if newly && !ok then s.quarantine job.domain else s

def accountResult (s : Run k) (job : AdaptiveJob) (result : TcpTestResult) (newly : Bool) : Run k :=
  if result.error = stoppedBeforeProbe then s.accountSkipped job
  else s.account job result.campaignPass newly

def release (s : Run k) (domains : List String) : Run k :=
  { s with isolation := s.isolation.releaseDomains domains }

end Run

def step (bridgeBatch : Nat) (s : Run k) : Action k → Option (Run k)
  | .setStop => some { s with stop := true }
  | .start w => match (s.workers w).pc with
    | .start => some ({ s with queue := s.queue.configureHeapRebuild bridgeBatch }.setPc w .head)
    | _ => none
  | .move w => (localStep s.stop (s.workers w)).map (s.put w)
  | .pop w rng => match (s.workers w).pc with
    | .head => if s.stop then none else s.popIsolated w rng
    | _ => none
  | .batchReturns w results => match (s.workers w).pc with
    | .probing batch after =>
        if results.length ≤ batch.jobs.length then some (s.setPc w (.accounting batch
          (batch.jobs.zip (padResults (batch.jobs.map toBridgeJob) results)) after))
        else none
    | _ => none
  | .account w newly => match (s.workers w).pc with
    | .accounting batch ((bj, result) :: rest) after =>
        (batch.jobByKey bj.key).map (fun job =>
          (s.accountResult job result newly).setPc w (.accounting batch rest after))
    | _ => none
  | .singleReturns w result newly => match (s.workers w).pc with
    | .single job => some ((s.account job result.campaignPass newly).setPc w (.singleReleasing job))
    | _ => none
  | .release w => match (s.workers w).pc with
    | .releasing batch after =>
        some ((s.release (batch.jobs.map (·.domain))).setPc w (.resume after))
    | .singleReleasing job => some ((s.release [job.domain]).setPc w .afterSingle)
    | _ => none

def initial (k bridgeBatch : Nat) (isolate : Bool) (quarantined : Finset String)
    (queue : AdaptiveJobQueue) : Run k where
  queue := queue
  isolation := ⟨isolate, quarantined⟩
  quarantined := quarantined
  stop := false
  stats := {}
  workers := fun _ => ⟨.new bridgeBatch, .start⟩
  handed := []
  accounted := []

/-- The matrix without the skipped domains and keys, then without the pairs
that the resume check recognises. -/
def buildAdaptiveQueue (items : List StrategyItem) (domains : List String) (weights : Weights)
    (epsilon : ℚ) (skipDomains : Finset String) (skipKeys : Finset Key)
    (resumeCheck : Option (AdaptiveJob → Bool)) : AdaptiveJobQueue :=
  let queue := AdaptiveJobQueue.build items domains weights epsilon skipDomains skipKeys
  match resumeCheck with
  | none => queue
  | some check => (queue.filterResume check).2

end Blockchecks.AdaptiveRunner
