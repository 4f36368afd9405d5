import Blockchecks.AdaptiveQueue
import Mathlib.Data.Finset.Lattice.Lemmas

namespace Blockchecks.BatchScheduler

open AdaptiveQueue

def batchJobKey (job : AdaptiveJob) : String × String × String :=
  (job.item.label, job.domain, if job.item.protocol = "" then "tls12" else job.item.protocol)

/-- Jobs that are probed together; one job for each key. -/
structure Batch where
  jobs : List AdaptiveJob
  nodup : (jobs.map AdaptiveJob.key).Nodup
  deriving DecidableEq

namespace Batch

def jobByKey (b : Batch) (key : Key) : Option AdaptiveJob :=
  b.jobs.reverse.find? (fun j => decide (j.key = key))

theorem jobByKey_of_mem {b : Batch} {job : AdaptiveJob} (h : job ∈ b.jobs) :
    b.jobByKey job.key = some job := by
  rw [jobByKey]
  cases hf : b.jobs.reverse.find? (fun j => decide (j.key = job.key)) with
  | none => simpa using List.find?_eq_none.mp hf job (List.mem_reverse.mpr h)
  | some j =>
      have hk : j.key = job.key := by simpa using List.find?_some hf
      have hj : j ∈ b.jobs := List.mem_reverse.mp (List.mem_of_find?_eq_some hf)
      exact congrArg some (List.inj_on_of_nodup_map b.nodup hj h hk)

end Batch

/-- The bridge accumulator. Its keys are those of its jobs, all of one
protocol, and it never outgrows its batch size. -/
structure BatchJobAccumulator where
  batchSize : Nat
  jobs : List AdaptiveJob
  keys : Finset (String × String × String)
  batchSize_pos : 1 ≤ batchSize
  keys_eq : keys = (jobs.map batchJobKey).toFinset
  uniform : ∀ i ∈ jobs, ∀ j ∈ jobs, (batchJobKey i).2.2 = (batchJobKey j).2.2
  nodup : (jobs.map AdaptiveJob.key).Nodup
  bounded : jobs.length ≤ batchSize

namespace BatchJobAccumulator

def new (batchSize : Nat) : BatchJobAccumulator where
  batchSize := max 1 batchSize
  jobs := []
  keys := ∅
  batchSize_pos := Nat.le_max_left _ _
  keys_eq := rfl
  uniform := by simp
  nodup := by simp
  bounded := by simp

def flush (acc : BatchJobAccumulator) : Batch × BatchJobAccumulator :=
  (⟨acc.jobs, acc.nodup⟩, { acc with
    jobs := []
    keys := ∅
    keys_eq := rfl
    uniform := by simp
    nodup := by simp
    bounded := by simp })

def sameProtocol (acc : BatchJobAccumulator) (job : AdaptiveJob) : Bool :=
  match acc.jobs with
  | [] => true
  | first :: _ => (batchJobKey first).2.2 == (batchJobKey job).2.2

def canAccept (acc : BatchJobAccumulator) (job : AdaptiveJob) : Bool :=
  !job.fanout && decide (batchJobKey job ∉ acc.keys) && acc.sameProtocol job &&
    decide (acc.jobs.length < acc.batchSize)

theorem sameProtocol_uniform {acc : BatchJobAccumulator} {job : AdaptiveJob}
    (h : acc.sameProtocol job = true) :
    ∀ i ∈ acc.jobs, (batchJobKey i).2.2 = (batchJobKey job).2.2 := by
  intro i hi
  unfold sameProtocol at h
  split at h
  next hj => rw [hj] at hi; cases hi
  next first rest hj =>
    rw [← eq_of_beq h]
    exact acc.uniform i hi first (by rw [hj]; exact List.mem_cons_self)

theorem canAccept_iff {acc : BatchJobAccumulator} {job : AdaptiveJob} :
    acc.canAccept job = true ↔ job.fanout = false ∧ batchJobKey job ∉ acc.keys ∧
      acc.sameProtocol job = true ∧ acc.jobs.length < acc.batchSize := by
  simp [canAccept, and_assoc]

theorem key_fresh {acc : BatchJobAccumulator} {job : AdaptiveJob} (h : acc.canAccept job = true) :
    job.key ∉ acc.jobs.map AdaptiveJob.key := by
  obtain ⟨_, hkey, hproto, _⟩ := canAccept_iff.mp h
  intro hm
  obtain ⟨i, hi, hik⟩ := List.mem_map.mp hm
  apply hkey
  rw [acc.keys_eq, List.mem_toFinset, List.mem_map]
  refine ⟨i, hi, ?_⟩
  have hp := sameProtocol_uniform hproto i hi
  unfold AdaptiveJob.key at hik
  exact Prod.ext (Prod.ext_iff.mp hik).1 (Prod.ext (Prod.ext_iff.mp hik).2 hp)

def push (acc : BatchJobAccumulator) (job : AdaptiveJob) : Option BatchJobAccumulator :=
  if h : acc.canAccept job = true then some
    { acc with
      jobs := acc.jobs ++ [job]
      keys := insert (batchJobKey job) acc.keys
      keys_eq := by
        rw [acc.keys_eq, List.map_append, List.toFinset_append, Finset.union_comm]
        rfl
      uniform := by
        have hp := sameProtocol_uniform (canAccept_iff.mp h).2.2.1
        intro i hi j hj
        rcases List.mem_append.mp hi with hi | hi <;> rcases List.mem_append.mp hj with hj | hj
        · exact acc.uniform i hi j hj
        · rw [List.mem_singleton.mp hj]
          exact hp i hi
        · rw [List.mem_singleton.mp hi]
          exact (hp j hj).symm
        · rw [List.mem_singleton.mp hi, List.mem_singleton.mp hj]
      nodup := by
        rw [List.map_append, List.map_singleton]
        exact acc.nodup.append (List.nodup_singleton _) (by simpa using key_fresh h)
      bounded := by
        rw [List.length_append]
        exact (canAccept_iff.mp h).2.2.2 }
  else none

def isFull (acc : BatchJobAccumulator) : Bool := decide (acc.batchSize ≤ acc.jobs.length)

theorem push_eq_some {acc acc' : BatchJobAccumulator} {job : AdaptiveJob}
    (h : acc.push job = some acc') : acc'.jobs = acc.jobs ++ [job] ∧ job.fanout = false := by
  unfold push at h
  split at h
  next hc =>
    obtain rfl := Option.some.inj h
    exact ⟨rfl, (canAccept_iff.mp hc).1⟩
  next => cases h

end BatchJobAccumulator

end Blockchecks.BatchScheduler
