import Blockchecks.BatchScheduler

namespace Blockchecks.BatchGroups

open AdaptiveQueue BatchScheduler

/-- A BatchScheduler: its size is at least one. -/
structure Scheduler where
  batchSize : Nat
  batchSize_pos : 1 ≤ batchSize

/-- The size is capped by the bridge's, which the environment may set. -/
def Scheduler.new (batchSize bridgeBatchMax : Int) : Scheduler where
  batchSize := (max 1 (min batchSize bridgeBatchMax)).toNat
  batchSize_pos := by omega

/-- The state of the grouping loop. -/
structure Grouping where
  out : List (List AdaptiveJob)
  curDomain : String
  cur : List AdaptiveJob
  labels : Finset String

namespace Grouping

def start (domain : String) : Grouping := ⟨[], domain, [], ∅⟩

/-- The batches with the current one, unless that is empty. -/
def closed (g : Grouping) : List (List AdaptiveJob) := if g.cur = [] then g.out else g.out ++ [g.cur]

def enterDomain (g : Grouping) (job : AdaptiveJob) : Grouping :=
  if job.domain = g.curDomain then g else ⟨g.closed, job.domain, [], ∅⟩

def add (g : Grouping) (job : AdaptiveJob) : Grouping :=
  { g with cur := g.cur ++ [job], labels := insert job.item.label g.labels }

def step (batchSize : Nat) (g : Grouping) (job : AdaptiveJob) : Grouping :=
  let g := g.enterDomain job
  if job.item.label ∈ g.labels then { g with out := g.closed, cur := [job], labels := {job.item.label} }
  else
    let g := if batchSize ≤ g.cur.length then { g with out := g.out ++ [g.cur], cur := [], labels := ∅ } else g
    g.add job

end Grouping

def Scheduler.groupJobsByDomain (s : Scheduler) (jobs : List AdaptiveJob) (flushPartial : Bool := true) :
    List (List AdaptiveJob) :=
  match jobs with
  | [] => []
  | first :: _ =>
      let g := jobs.foldl (Grouping.step s.batchSize) (.start first.domain)
      if g.cur ≠ [] ∧ (flushPartial ∨ s.batchSize ≤ g.cur.length) then g.out ++ [g.cur] else g.out

/-- What a batch may hold. -/
structure Fit (batchSize : Nat) (domain : String) (batch : List AdaptiveJob) : Prop where
  bounded : batch.length ≤ batchSize
  uniform : ∀ job ∈ batch, job.domain = domain
  nodup : (batch.map (·.item.label)).Nodup

namespace Grouping

variable {batchSize : Nat} {g : Grouping} {seen : List AdaptiveJob} {job : AdaptiveJob}

/-- The batches and the current one are the jobs seen, and the labels are those
of the current one. -/
structure Inv (batchSize : Nat) (seen : List AdaptiveJob) (g : Grouping) : Prop where
  joined : g.out.flatten ++ g.cur = seen
  batches : ∀ batch ∈ g.out, batch ≠ [] ∧ ∃ domain, Fit batchSize domain batch
  current : Fit batchSize g.curDomain g.cur
  labels : g.labels = (g.cur.map (·.item.label)).toFinset

theorem fit_nil (batchSize : Nat) (domain : String) : Fit batchSize domain [] :=
  ⟨Nat.zero_le _, fun _ h => absurd h List.not_mem_nil, List.nodup_nil⟩

theorem fit_singleton (hpos : 1 ≤ batchSize) (job : AdaptiveJob) : Fit batchSize job.domain [job] :=
  ⟨hpos, fun _ h => congrArg AdaptiveJob.domain (List.mem_singleton.mp h), List.nodup_singleton _⟩

theorem start_inv (batchSize : Nat) (domain : String) : Inv batchSize [] (start domain) :=
  ⟨rfl, fun _ h => absurd h List.not_mem_nil, fit_nil batchSize domain, rfl⟩

theorem Inv.flatten_closed (h : Inv batchSize seen g) : g.closed.flatten = seen := by
  rw [← h.joined, closed]
  split
  next hcur => rw [hcur, List.append_nil]
  next => rw [List.flatten_append, List.flatten_singleton]

theorem Inv.closed (h : Inv batchSize seen g) :
    ∀ batch ∈ g.closed, batch ≠ [] ∧ ∃ domain, Fit batchSize domain batch := by
  intro batch hmem
  rw [Grouping.closed] at hmem
  split at hmem
  next => exact h.batches batch hmem
  next hcur =>
    rcases List.mem_append.mp hmem with hout | hlast
    · exact h.batches batch hout
    · obtain rfl := List.mem_singleton.mp hlast
      exact ⟨hcur, g.curDomain, h.current⟩

theorem Inv.enterDomain (h : Inv batchSize seen g) (job : AdaptiveJob) :
    Inv batchSize seen (g.enterDomain job) ∧ (g.enterDomain job).curDomain = job.domain := by
  rw [Grouping.enterDomain]
  split
  next hsame => exact ⟨h, hsame.symm⟩
  next =>
    refine ⟨⟨?_, h.closed, fit_nil batchSize job.domain, rfl⟩, rfl⟩
    rw [List.append_nil, h.flatten_closed]

/-- A full batch is closed before the next job joins. -/
theorem Inv.cut (h : Inv batchSize seen g) (hfull : batchSize ≤ g.cur.length) (hpos : 1 ≤ batchSize) :
    Inv batchSize seen { g with out := g.out ++ [g.cur], cur := [], labels := ∅ } := by
  have hcur : g.cur ≠ [] := List.ne_nil_of_length_pos (Nat.le_trans hpos hfull)
  have hclosed : g.closed = g.out ++ [g.cur] := if_neg hcur
  refine ⟨?_, hclosed ▸ h.closed, fit_nil batchSize g.curDomain, rfl⟩
  rw [← hclosed, List.append_nil, h.flatten_closed]

theorem Inv.add (h : Inv batchSize seen g) (hdomain : g.curDomain = job.domain)
    (hlabel : job.item.label ∉ g.labels) (hroom : g.cur.length < batchSize) :
    Inv batchSize (seen ++ [job]) (g.add job) := by
  rw [h.labels, List.mem_toFinset] at hlabel
  refine ⟨?_, h.batches, ⟨?_, ?_, ?_⟩, ?_⟩
  · rw [Grouping.add, ← List.append_assoc, h.joined]
  · rw [Grouping.add, List.length_append]
    exact hroom
  · intro other hother
    rcases List.mem_append.mp hother with hcur | hnew
    · exact h.current.uniform other hcur
    · rw [List.mem_singleton.mp hnew]
      exact hdomain.symm
  · rw [Grouping.add, List.map_append, List.map_singleton]
    exact h.current.nodup.append (List.nodup_singleton _) (by simpa using hlabel)
  · rw [Grouping.add, h.labels, List.map_append, List.toFinset_append, Finset.union_comm]
    rfl

/-- A repeated label closes the batch, and its job begins the next. -/
theorem Inv.repeated (h : Inv batchSize seen g) (hdomain : g.curDomain = job.domain) (hpos : 1 ≤ batchSize) :
    Inv batchSize (seen ++ [job]) { g with out := g.closed, cur := [job], labels := {job.item.label} } := by
  refine ⟨?_, h.closed, ?_, rfl⟩
  · rw [h.flatten_closed]
  · rw [hdomain]
    exact fit_singleton hpos job

theorem Inv.step (h : Inv batchSize seen g) (hpos : 1 ≤ batchSize) (job : AdaptiveJob) :
    Inv batchSize (seen ++ [job]) (g.step batchSize job) := by
  obtain ⟨hentered, hdomain⟩ := h.enterDomain job
  simp only [Grouping.step]
  by_cases hlabel : job.item.label ∈ (g.enterDomain job).labels
  · rw [if_pos hlabel]
    exact hentered.repeated hdomain hpos
  · rw [if_neg hlabel]
    by_cases hfull : batchSize ≤ (g.enterDomain job).cur.length
    · rw [if_pos hfull]
      exact (hentered.cut hfull hpos).add hdomain (Finset.notMem_empty _) hpos
    · rw [if_neg hfull]
      exact hentered.add hdomain hlabel (Nat.lt_of_not_le hfull)

theorem Inv.foldl (h : Inv batchSize seen g) (hpos : 1 ≤ batchSize) (jobs : List AdaptiveJob) :
    Inv batchSize (seen ++ jobs) (jobs.foldl (Grouping.step batchSize) g) := by
  induction jobs generalizing seen g with
  | nil => rwa [List.append_nil]
  | cons job jobs ih =>
      have hrest := ih (h.step hpos job)
      rwa [List.append_assoc, List.singleton_append] at hrest

end Grouping

theorem Scheduler.groupJobsByDomain_eq_closed (s : Scheduler) (first : AdaptiveJob) (jobs : List AdaptiveJob) :
    s.groupJobsByDomain (first :: jobs) =
      ((first :: jobs).foldl (Grouping.step s.batchSize) (.start first.domain)).closed := by
  rw [groupJobsByDomain, Grouping.closed]
  simp only [true_or, and_true, ne_eq, ite_not]

theorem Scheduler.groups (s : Scheduler) (jobs : List AdaptiveJob) :
    (s.groupJobsByDomain jobs).flatten = jobs ∧
      ∀ batch ∈ s.groupJobsByDomain jobs, batch ≠ [] ∧ ∃ domain, Fit s.batchSize domain batch := by
  cases jobs with
  | nil => exact ⟨rfl, fun _ h => absurd h List.not_mem_nil⟩
  | cons first jobs =>
      have h := (Grouping.start_inv s.batchSize first.domain).foldl s.batchSize_pos (first :: jobs)
      rw [s.groupJobsByDomain_eq_closed]
      exact ⟨h.flatten_closed, h.closed⟩

inductive Call where
  | push (job : AdaptiveJob)
  | flush

/-- An accumulator with the jobs that it has accepted and what its flushes have
returned. -/
structure Run where
  acc : BatchJobAccumulator
  accepted : List AdaptiveJob := []
  flushed : List (List AdaptiveJob) := []

namespace Run

def start (batchSize : Int) : Run := { acc := .new batchSize.toNat }

def step (r : Run) : Call → Run
  | .push job => match r.acc.push job with
    | some acc => { r with acc := acc, accepted := r.accepted ++ [job] }
    | none => r
  | .flush => { r with acc := r.acc.flush.2, flushed := r.flushed ++ [r.acc.flush.1.jobs] }

def run (batchSize : Int) (calls : List Call) : Run := calls.foldl step (start batchSize)

/-- No fan-out job is held, and each accepted one is held or was returned. -/
structure Inv (batchSize : Int) (r : Run) : Prop where
  classic : ∀ job ∈ r.acc.jobs, job.fanout = false
  size : (r.acc.batchSize : Int) = max 1 batchSize
  accounted : r.flushed.flatten ++ r.acc.jobs = r.accepted

variable {batchSize : Int} {r : Run}

theorem start_inv (batchSize : Int) : Inv batchSize (start batchSize) := by
  refine ⟨fun _ h => absurd h List.not_mem_nil, ?_, rfl⟩
  change ((max 1 batchSize.toNat : Nat) : Int) = max 1 batchSize
  omega

theorem push_batchSize {acc acc' : BatchJobAccumulator} {job : AdaptiveJob} (h : acc.push job = some acc') :
    acc'.batchSize = acc.batchSize := by
  rw [BatchJobAccumulator.push] at h
  split at h
  next => exact (congrArg BatchJobAccumulator.batchSize (Option.some.inj h)).symm
  next => cases h

theorem Inv.step (h : Inv batchSize r) (call : Call) : Inv batchSize (r.step call) := by
  cases call with
  | push job =>
      rw [Run.step]
      cases hpush : r.acc.push job with
      | none => exact h
      | some acc =>
          obtain ⟨hjobs, hclassic⟩ := BatchJobAccumulator.push_eq_some hpush
          refine ⟨?_, ?_, ?_⟩
          · intro other hother
            rw [hjobs] at hother
            rcases List.mem_append.mp hother with hold | hnew
            · exact h.classic other hold
            · rw [List.mem_singleton.mp hnew]
              exact hclassic
          · rw [push_batchSize hpush]
            exact h.size
          · rw [hjobs, ← List.append_assoc, h.accounted]
  | flush =>
      refine ⟨fun _ hmem => absurd hmem List.not_mem_nil, h.size, ?_⟩
      rw [Run.step, List.flatten_append, List.flatten_singleton]
      exact (List.append_nil _).trans h.accounted

theorem run_inv (batchSize : Int) (calls : List Call) : Inv batchSize (run batchSize calls) := by
  rw [run]
  have hfold : ∀ {r : Run}, Inv batchSize r → Inv batchSize (calls.foldl Run.step r) := by
    induction calls with
    | nil => exact id
    | cons call calls ih => exact fun h => ih (h.step call)
  exact hfold (start_inv batchSize)

/-- A flush at the end leaves nothing behind. -/
theorem run_flush (batchSize : Int) (calls : List Call) :
    (run batchSize (calls ++ [.flush])).flushed.flatten = (run batchSize calls).accepted := by
  have h := (run_inv batchSize (calls ++ [.flush])).accounted
  rw [run, List.foldl_append, List.foldl_cons, List.foldl_nil] at h ⊢
  exact (List.append_nil _).symm.trans h

end Run

theorem batchJobKey_nodup (acc : BatchJobAccumulator) : (acc.jobs.map batchJobKey).Nodup := by
  have hkey : acc.jobs.map AdaptiveJob.key = (acc.jobs.map batchJobKey).map (fun k => (k.1, k.2.1)) := by
    rw [List.map_map]
    rfl
  exact List.Nodup.of_map _ (hkey ▸ acc.nodup)

/-- Batches are the jobs in order, cut where the domain changes, a label comes
again or the size is reached. An accumulator holds jobs that may share a batch,
and returns each one that it has accepted once, in order. -/
theorem batches_formed (batchSize bridgeBatchMax : Int) (jobs : List AdaptiveJob) (calls : List Call) :
    let scheduler := Scheduler.new batchSize bridgeBatchMax
    let r := Run.run batchSize calls
    ((scheduler.groupJobsByDomain jobs).flatten = jobs ∧
      ∀ batch ∈ scheduler.groupJobsByDomain jobs, batch ≠ [] ∧ batch.length ≤ scheduler.batchSize ∧
        (batch.length : Int) ≤ max 1 batchSize ∧ (∃ domain, ∀ job ∈ batch, job.domain = domain) ∧
        (batch.map (·.item.label)).Nodup) ∧
    (∀ job ∈ r.acc.jobs, job.fanout = false) ∧
    (∀ i ∈ r.acc.jobs, ∀ j ∈ r.acc.jobs, (batchJobKey i).2.2 = (batchJobKey j).2.2) ∧
    (r.acc.jobs.map batchJobKey).Nodup ∧ r.acc.keys = (r.acc.jobs.map batchJobKey).toFinset ∧
    (r.acc.jobs.length : Int) ≤ max 1 batchSize ∧
    r.flushed.flatten ++ r.acc.jobs = r.accepted ∧
    (Run.run batchSize (calls ++ [.flush])).flushed.flatten = r.accepted := by
  intro scheduler r
  have hrun := Run.run_inv batchSize calls
  obtain ⟨hjoined, hbatches⟩ := scheduler.groups jobs
  refine ⟨⟨hjoined, ?_⟩, hrun.classic, r.acc.uniform, batchJobKey_nodup r.acc, r.acc.keys_eq, ?_,
    hrun.accounted, Run.run_flush batchSize calls⟩
  · intro batch hbatch
    obtain ⟨hne, domain, hfit⟩ := hbatches batch hbatch
    refine ⟨hne, hfit.bounded, ?_, ⟨domain, hfit.uniform⟩, hfit.nodup⟩
    have hsize : (scheduler.batchSize : Int) ≤ max 1 batchSize := by
      simp only [scheduler, Scheduler.new]
      omega
    exact (Int.ofNat_le.mpr hfit.bounded).trans hsize
  · rw [← hrun.size]
    exact Int.ofNat_le.mpr r.acc.bounded

end Blockchecks.BatchGroups
