import Blockchecks.RunnerSteps

namespace Blockchecks.RunnerClaims

open AdaptiveQueue BatchScheduler BridgeWorkerPool AdaptiveRunner RunnerSteps

variable {k bridgeBatch : Nat}

def releasedJobs : Pc → List AdaptiveJob
  | .releasing batch _ => batch.jobs
  | .singleReleasing job => [job]
  | _ => []

def keptJobs : Pc → List AdaptiveJob
  | .releasing _ after => afterJobs after
  | _ => []

/-- What an action does to the claims on domains: nothing, one pop that claims
a domain, or one release that gives some jobs up. -/
inductive ClaimEffect (s : Run k) (a : Action k) (t : Run k) : Prop
  | quiet (action : ∀ w, a ≠ .release w) (handed : t.handed = s.handed)
      (isolation : t.isolation = s.isolation)
      (same : ∀ w, claimed (t.workers w) = claimed (s.workers w))
  | pop (w : Fin (k + 1)) (rng : Rng) (q : AdaptiveJobQueue) (job : AdaptiveJob)
      (action : a = .pop w rng)
      (result : s.queue.pop (s.isolation.excludedSnapshot s.quarantined) rng = some (some job, q))
      (handed : t.handed = job :: s.handed) (enabled : t.isolation.enabled = s.isolation.enabled)
      (active : t.isolation.activeDomains = insert job.domain s.isolation.activeDomains)
      (claim : claimed (t.workers w) = claimed (s.workers w) ++ [job])
      (same : ∀ w', w' ≠ w → claimed (t.workers w') = claimed (s.workers w'))
  | release (w : Fin (k + 1)) (action : a = .release w) (handed : t.handed = s.handed)
      (isolation : t.isolation =
        s.isolation.releaseDomains ((releasedJobs (s.workers w).pc).map (·.domain)))
      (claim : claimed (s.workers w) = releasedJobs (s.workers w).pc ++ claimed (t.workers w))
      (kept : claimed (t.workers w) = keptJobs (s.workers w).pc)
      (same : ∀ w', w' ≠ w → claimed (t.workers w') = claimed (s.workers w'))

theorem claimed_put_self (s : Run k) (w : Fin (k + 1)) (wk : Worker) :
    claimed ((s.put w wk).workers w) = claimed wk := by
  simp only [Run.put, Function.update_self]

theorem claimed_put_of_ne {s u : Run k} {w w' : Fin (k + 1)} {wk : Worker}
    (hu : u.workers = s.workers) (h : w' ≠ w) :
    claimed ((u.put w wk).workers w') = claimed (s.workers w') := by
  simp only [Run.put, Function.update_of_ne h, hu]

theorem claimed_put {s u : Run k} {w : Fin (k + 1)} {wk : Worker} (hu : u.workers = s.workers)
    (hw : claimed wk = claimed (s.workers w)) (w' : Fin (k + 1)) :
    claimed ((u.put w wk).workers w') = claimed (s.workers w') := by
  by_cases he : w' = w
  · rw [he, claimed_put_self, hw]
  · exact claimed_put_of_ne hu he

theorem effect_claims {s t : Run k} {a : Action k} (hs : ∀ w, Sane (s.workers w))
    (h : Effect bridgeBatch s a t) : ClaimEffect s a t := by
  cases h with
  | setStop => exact .quiet (fun _ h => by cases h) rfl rfl (fun _ => rfl)
  | @start w hpc =>
      refine .quiet (fun _ h => by cases h) rfl rfl (claimed_put rfl ?_)
      simp [claimed, hpc, pcClaimed, pcHeld]
  | @move w wk hl => exact .quiet (fun _ h => by cases h) rfl rfl (claimed_put rfl (hl.keeps (hs w)).2.1)
  | @refused w rng q hpc _ hpop =>
      refine .quiet (fun _ h => by cases h) rfl rfl (claimed_put rfl ?_)
      simp [claimed, hpc, pcClaimed, pcHeld, afterJobs]
  | @popped w rng q job hpc _ hpop =>
      refine .pop w rng q job rfl hpop rfl rfl rfl ?_ (fun w' hne => claimed_put_of_ne rfl hne)
      rw [Run.setPc, claimed_put_self]
      simp [claimed, hpc, pcClaimed, pcHeld]
  | @probed w results batch after hpc hle =>
      refine .quiet (fun _ h => by cases h) rfl rfl (claimed_put rfl ?_)
      simp [claimed, hpc, pcClaimed, pcHeld]
  | @accounted w newly batch job result rest after t hpc hacc =>
      refine .quiet (fun _ h => by cases h) hacc.handed hacc.isolation (claimed_put hacc.workers ?_)
      simp [claimed, hpc, hacc.workers, pcClaimed]
  | @singleDone w result newly job t hpc hacc =>
      refine .quiet (fun _ h => by cases h) hacc.handed hacc.isolation (claimed_put hacc.workers ?_)
      simp [claimed, hpc, hacc.workers, pcClaimed, pcHeld]
  | @released w batch after hpc =>
      have hw := hs w
      simp only [Sane, hpc] at hw
      refine .release w rfl rfl (by rw [hpc]; rfl) ?_ ?_ (fun w' hne => claimed_put_of_ne rfl hne) <;>
        unfold Run.setPc <;> rw [claimed_put_self] <;>
        simp [claimed, hpc, pcClaimed, pcHeld, releasedJobs, keptJobs, hw, Run.release]
  | @singleReleased w job hpc =>
      have hw := hs w
      simp only [Sane, hpc] at hw
      refine .release w rfl rfl (by rw [hpc]; rfl) ?_ ?_ (fun w' hne => claimed_put_of_ne rfl hne) <;>
        unfold Run.setPc <;> rw [claimed_put_self] <;>
        simp [claimed, hpc, pcClaimed, pcHeld, releasedJobs, keptJobs, hw, Run.release]

theorem ClaimEffect.enabled {s t : Run k} {a : Action k} (h : ClaimEffect s a t) :
    t.isolation.enabled = s.isolation.enabled := by
  cases h with
  | quiet _ _ hi => rw [hi]
  | pop _ _ _ _ _ _ _ he => exact he
  | release _ _ _ hi => rw [hi, DomainIsolationPool.releaseDomains_enabled]

end Blockchecks.RunnerClaims
