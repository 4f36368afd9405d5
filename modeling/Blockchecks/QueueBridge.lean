import Blockchecks.BridgeWorkerPool
import Blockchecks.Runs

namespace Blockchecks.QueueBridge

open StrategyText Results BridgeWorkerPool

abbrev Job := StrategyItem × String

def toBridgeJob (job : Job) : BridgeJob := ⟨job.1, job.2, false⟩

inductive Call where
  | accountOk (passed : Bool)
  | accountSkipped
  deriving DecidableEq, Repr

/-- The control points of run_queue_bridge_worker. The flag tells whether the
worker returns after its flush or goes on. -/
inductive Pc where
  | head
  | got (job : Job)
  | skipping (job : Job)
  | sleeping
  | flush (leaving : Bool)
  | probing (batch : List Job) (leaving : Bool)
  | accounting (batch : List Job) (rest : List (Job × TcpTestResult)) (leaving : Bool)
  | releasing (batch : List Job) (leaving : Bool)
  | resume (leaving : Bool)
  | returned
  deriving DecidableEq

structure Worker where
  acc : List Job
  pc : Pc

structure Pool (k : Nat) where
  queue : List Job
  isolation : DomainIsolationPool
  excludedDomains : Finset String
  stop : Bool
  workers : Fin (k + 1) → Worker
  calls : List (Job × Call)

inductive Action (k : Nat) where
  | setStop
  | exclude (domain : String)
  | get (w : Fin (k + 1))
  | place (w : Fin (k + 1))
  | skip (w : Fin (k + 1))
  | move (w : Fin (k + 1))
  | batchReturns (w : Fin (k + 1)) (results : List TcpTestResult)
  | account (w : Fin (k + 1))
  | release (w : Fin (k + 1))

variable {k : Nat}

namespace Pool

def put (s : Pool k) (w : Fin (k + 1)) (wk : Worker) : Pool k :=
  { s with workers := Function.update s.workers w wk }

def setPc (s : Pool k) (w : Fin (k + 1)) (pc : Pc) : Pool k :=
  s.put w { s.workers w with pc := pc }

def getNowait (s : Pool k) (w : Fin (k + 1)) : Pool k :=
  match s.queue with
  | [] => s.setPc w (.flush true)
  | job :: queue => { s with queue := queue }.setPc w (.got job)

/-- Skip an excluded domain, put the job back when its domain is taken, or
append it to the accumulator. -/
def place (batchSize : Nat) (s : Pool k) (w : Fin (k + 1)) (job : Job) : Pool k :=
  if job.2 ∈ s.excludedDomains then s.setPc w (.skipping job)
  else match s.isolation.claimDomain job.2 with
    | (false, _) => { s with queue := s.queue ++ [job] }.setPc w .sleeping
    | (true, isolation) =>
        let acc := (s.workers w).acc ++ [job]
        { s with isolation := isolation }.put w
          ⟨acc, if batchSize ≤ acc.length then .flush false else .head⟩

def call (s : Pool k) (job : Job) (c : Call) : Pool k :=
  { s with calls := (job, c) :: s.calls }

end Pool

def callFor (result : TcpTestResult) : Call :=
  if result.error = stoppedBeforeProbe then .accountSkipped else .accountOk result.campaignPass

/-- The steps that touch only the worker and the stop event. -/
def localStep (stop : Bool) (wk : Worker) : Option Worker :=
  match wk.pc with
  | .head => if stop then some { wk with pc := .flush true } else none
  | .sleeping => some { wk with pc := .flush false }
  | .flush leaving =>
      if wk.acc = [] then some { wk with pc := .resume leaving }
      else some ⟨[], .probing wk.acc leaving⟩
  | .accounting batch [] leaving => some { wk with pc := .releasing batch leaving }
  | .resume leaving => some { wk with pc := if leaving then .returned else .head }
  | _ => none

/-- One action; none when it is not enabled. A batch returns at most one result
for each job. -/
def step (batchSize : Nat) (s : Pool k) : Action k → Option (Pool k)
  | .setStop => some { s with stop := true }
  | .exclude domain => some { s with excludedDomains := insert domain s.excludedDomains }
  | .get w => match (s.workers w).pc with
    | .head => if s.stop then none else some (s.getNowait w)
    | _ => none
  | .place w => match (s.workers w).pc with
    | .got job => some (s.place batchSize w job)
    | _ => none
  | .skip w => match (s.workers w).pc with
    | .skipping job => some ((s.call job .accountSkipped).setPc w .head)
    | _ => none
  | .move w => (localStep s.stop (s.workers w)).map (s.put w)
  | .batchReturns w results => match (s.workers w).pc with
    | .probing batch leaving =>
        if results.length ≤ batch.length then some (s.setPc w (.accounting batch
          (batch.zip (padResults (batch.map toBridgeJob) results)) leaving))
        else none
    | _ => none
  | .account w => match (s.workers w).pc with
    | .accounting batch ((job, result) :: rest) leaving =>
        some ((s.call job (callFor result)).setPc w (.accounting batch rest leaving))
    | _ => none
  | .release w => match (s.workers w).pc with
    | .releasing batch leaving => some ({ s with
        isolation := s.isolation.releaseDomains (batch.map Prod.snd) }.setPc w (.resume leaving))
    | _ => none

def initial (k : Nat) (isolate : Bool) (jobs : List Job) (active excluded : Finset String) :
    Pool k where
  queue := jobs
  isolation := ⟨isolate, active⟩
  excludedDomains := excluded
  stop := false
  workers := fun _ => ⟨[], .head⟩
  calls := []

end Blockchecks.QueueBridge
