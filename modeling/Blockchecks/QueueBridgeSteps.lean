import Blockchecks.QueueBridge

namespace Blockchecks.QueueBridgeSteps

open BridgeWorkerPool QueueBridge

variable {k batchSize : Nat}

def pcHeld : Pc → List Job
  | .got job => [job]
  | .skipping job => [job]
  | .probing batch _ => batch
  | .accounting _ rest _ => rest.map Prod.fst
  | _ => []

def pcClaimed : Pc → List Job
  | .probing batch _ => batch
  | .accounting batch _ _ => batch
  | .releasing batch _ => batch
  | _ => []

def held (wk : Worker) : List Job := wk.acc ++ pcHeld wk.pc

def claimed (wk : Worker) : List Job := wk.acc ++ pcClaimed wk.pc

def Leaving : Pc → Prop
  | .flush leaving => leaving = true
  | .probing _ leaving => leaving = true
  | .accounting _ _ leaving => leaving = true
  | .releasing _ leaving => leaving = true
  | .resume leaving => leaving = true
  | .returned => True
  | _ => False

/-- From a flush to the next claim the accumulator is empty. -/
def Sane (wk : Worker) : Prop :=
  match wk.pc with
  | .probing _ _ => wk.acc = []
  | .accounting _ _ _ => wk.acc = []
  | .releasing _ _ => wk.acc = []
  | .resume _ => wk.acc = []
  | .returned => wk.acc = []
  | _ => True

theorem localStep_keeps {stop : Bool} {wk wk' : Worker} (h : localStep stop wk = some wk')
    (hs : Sane wk) : held wk' = held wk ∧ claimed wk' = claimed wk ∧ Sane wk' ∧
      (stop = false → Leaving wk'.pc → Leaving wk.pc) := by
  obtain ⟨acc, pc⟩ := wk
  cases pc with
  | head =>
      simp only [localStep] at h
      split at h
      next hstop =>
        obtain rfl := Option.some.inj h
        exact ⟨rfl, rfl, trivial, fun hf => by rw [hstop] at hf; cases hf⟩
      next => cases h
  | sleeping =>
      obtain rfl := Option.some.inj h
      exact ⟨rfl, rfl, trivial, fun _ hl => by cases hl⟩
  | flush leaving =>
      simp only [localStep] at h
      split at h
      next hacc =>
        obtain rfl := Option.some.inj h
        exact ⟨rfl, rfl, hacc, fun _ hl => hl⟩
      next =>
        obtain rfl := Option.some.inj h
        simp [held, claimed, pcHeld, pcClaimed, Sane, Leaving]
  | accounting batch rest leaving =>
      cases rest with
      | nil =>
          obtain rfl := Option.some.inj h
          exact ⟨rfl, rfl, hs, fun _ hl => hl⟩
      | cons => cases h
  | resume leaving =>
      obtain rfl := Option.some.inj h
      cases leaving with
      | true => exact ⟨rfl, rfl, hs, fun _ _ => rfl⟩
      | false => exact ⟨rfl, rfl, trivial, fun _ hl => hl.elim⟩
  | got | skipping | probing | releasing | returned => cases h

/-- Everything one action can do. -/
inductive Effect (s : Pool k) : Pool k → Prop
  | setStop : Effect s { s with stop := true }
  | exclude {domain} : Effect s
      { s with excludedDomains := insert domain s.excludedDomains }
  | empty {w} (hpc : (s.workers w).pc = .head) (hq : s.queue = []) :
      Effect s (s.setPc w (.flush true))
  | get {w job queue} (hpc : (s.workers w).pc = .head) (hq : s.queue = job :: queue) :
      Effect s ({ s with queue := queue }.setPc w (.got job))
  | excluded {w job} (hpc : (s.workers w).pc = .got job) :
      Effect s (s.setPc w (.skipping job))
  | requeue {w job} (hpc : (s.workers w).pc = .got job) :
      Effect s ({ s with queue := s.queue ++ [job] }.setPc w .sleeping)
  | claim {w job isolation pc} (hpc : (s.workers w).pc = .got job)
      (hclaim : s.isolation.claimDomain job.2 = (true, isolation))
      (hnext : pc = .flush false ∨ pc = .head) :
      Effect s
        ({ s with isolation := isolation }.put w ⟨(s.workers w).acc ++ [job], pc⟩)
  | skip {w job} (hpc : (s.workers w).pc = .skipping job) :
      Effect s ((s.call job .accountSkipped).setPc w .head)
  | move {w wk} (h : localStep s.stop (s.workers w) = some wk) : Effect s (s.put w wk)
  | probed {w results batch leaving} (hpc : (s.workers w).pc = .probing batch leaving)
      (h : results.length ≤ batch.length) : Effect s (s.setPc w (.accounting batch
        (batch.zip (padResults (batch.map toBridgeJob) results)) leaving))
  | account {w batch job result rest leaving c}
      (hpc : (s.workers w).pc = .accounting batch ((job, result) :: rest) leaving) :
      Effect s ((s.call job c).setPc w (.accounting batch rest leaving))
  | release {w batch leaving} (hpc : (s.workers w).pc = .releasing batch leaving) :
      Effect s ({ s with
        isolation := s.isolation.releaseDomains (batch.map Prod.snd) }.setPc w (.resume leaving))

theorem step_effect {s t : Pool k} {a : Action k} (h : step batchSize s a = some t) :
    Effect s t := by
  cases a with
  | setStop => exact Option.some.inj h ▸ .setStop
  | exclude domain => exact Option.some.inj h ▸ .exclude
  | get w =>
      simp only [step] at h
      split at h
      next hpc =>
        split at h
        · cases h
        · obtain rfl := Option.some.inj h
          rw [Pool.getNowait]
          split
          next hq => exact .empty hpc hq
          next hq => exact .get hpc hq
      next => cases h
  | place w =>
      simp only [step] at h
      split at h
      next job hpc =>
        obtain rfl := Option.some.inj h
        rw [Pool.place]
        split
        · exact .excluded hpc
        split
        next => exact .requeue hpc
        next hclaim =>
          refine .claim hpc hclaim ?_
          split
          · exact Or.inl rfl
          · exact Or.inr rfl
      next => cases h
  | skip w =>
      simp only [step] at h
      split at h
      next hpc => exact Option.some.inj h ▸ .skip hpc
      next => cases h
  | move w =>
      obtain ⟨wk, hwk, rfl⟩ := Option.map_eq_some_iff.mp h
      exact .move hwk
  | batchReturns w results =>
      simp only [step] at h
      split at h
      next hpc =>
        split at h
        next hle => exact Option.some.inj h ▸ .probed hpc hle
        next => cases h
      next => cases h
  | account w =>
      simp only [step] at h
      split at h
      next hpc => exact Option.some.inj h ▸ .account hpc
      next => cases h
  | release w =>
      simp only [step] at h
      split at h
      next hpc => exact Option.some.inj h ▸ .release hpc
      next => cases h

end Blockchecks.QueueBridgeSteps
