import Blockchecks.Heapq
import Blockchecks.ScanWeights
import Blockchecks.TcpFanout
import Mathlib.Data.Finset.Basic
import Mathlib.Data.Finset.Dedup

namespace Blockchecks.AdaptiveQueue

open OrderedDict Heapq ScanWeights StrategyText TcpFanout

abbrev Key := String × String

structure AdaptiveJob where
  item : StrategyItem
  domain : String
  family : String := ""
  fanout : Bool := false
  deriving DecidableEq, Repr

namespace AdaptiveJob

def key (job : AdaptiveJob) : Key := (job.item.label, job.domain)

def blobs (job : AdaptiveJob) : List String := extractBlobHints job.item.strategy

def traits (job : AdaptiveJob) : List String := strategyTraits job.item.strategy

def fromItem (item : StrategyItem) (domain : String) (fanout : Bool := false) : AdaptiveJob where
  item := item
  domain := domain
  family := classifyStrategyFamily item
  fanout := fanout

end AdaptiveJob

structure HeapEntry where
  negPriority : ℚ
  seq : Nat
  key : Key
  deriving DecidableEq, Repr

/-- The dataclass order: priority first, then sequence number; the key is not compared. -/
def HeapEntry.before (a b : HeapEntry) : Bool :=
  decide (a.negPriority < b.negPriority ∨ a.negPriority = b.negPriority ∧ a.seq < b.seq)

/-- The counters of AdaptiveMetrics; its clock readings are left out. -/
structure AdaptiveMetrics where
  totalEnqueued : Nat := 0
  jobsRun : Nat := 0
  jobsPassed : Nat := 0
  fanoutEnqueued : Nat := 0
  passesBeforeHalf : Nat := 0
  halfMarkJobs : Nat := 0
  deriving DecidableEq, Repr

namespace AdaptiveMetrics

def recordRun (m : AdaptiveMetrics) (passed : Bool) : AdaptiveMetrics :=
  let m := { m with jobsRun := m.jobsRun + 1 }
  if passed then
    { m with
      jobsPassed := m.jobsPassed + 1
      passesBeforeHalf :=
        if m.halfMarkJobs ≠ 0 ∧ m.jobsRun ≤ m.halfMarkJobs then m.passesBeforeHalf + 1
        else m.passesBeforeHalf }
  else m

def setHalfMark (m : AdaptiveMetrics) (total : Nat) : AdaptiveMetrics :=
  { m with halfMarkJobs := max 1 (total / 2) }

end AdaptiveMetrics

/-- The draws of one pop: random() and randint(1, n), which is called at most
once for each n. -/
structure Rng where
  random : ℚ
  randint : Nat → Nat
  randint_pos : ∀ n, 0 < n → 1 ≤ randint n
  randint_le : ∀ n, 0 < n → randint n ≤ n

def Rng.least : Rng := ⟨0, fun _ => 1, fun _ _ => Nat.le_refl 1, fun _ h => h⟩

structure AdaptiveJobQueue where
  weights : Weights
  epsilon : ℚ
  seq : Nat := 0
  heap : List HeapEntry := []
  pending : Dict Key AdaptiveJob := .empty
  byLabel : String → Finset Key := fun _ => ∅
  done : Finset Key := ∅
  allDomains : List String := []
  clusterIndex : Dict Cluster (List String) := .empty
  excludedDomains : Finset String := ∅
  metrics : AdaptiveMetrics := {}
  heapRebuildEvery : Nat := 0
  heapRebuildCounter : Nat := 0
  rebuildHeapCalls : Nat := 0

def clusterDomainIndex (domains : List String) : Dict Cluster (List String) :=
  domains.foldl (fun idx d =>
    idx.set (clusterDomain d) ((idx.get? (clusterDomain d)).getD [] ++ [d])) .empty

def siblingDomains (domain : String) (clusterIndex : Dict Cluster (List String)) : List String :=
  ((clusterIndex.get? (clusterDomain domain)).getD []).filter (· ≠ domain)

namespace AdaptiveJobQueue

def new (weights : Weights) (epsilon : ℚ) : AdaptiveJobQueue where
  weights := weights
  epsilon := max 0 (min 1 epsilon)

def jobPriority (q : AdaptiveJobQueue) (job : AdaptiveJob) : ℚ :=
  q.weights.get job.family job.blobs job.traits

def pushHeap (q : AdaptiveJobQueue) (key : Key) (priority : ℚ) : AdaptiveJobQueue :=
  { q with
    seq := q.seq + 1
    heap := heappush HeapEntry.before q.heap ⟨-priority, q.seq + 1, key⟩ }

def dropPending (q : AdaptiveJobQueue) (key : Key) : Option AdaptiveJob × AdaptiveJobQueue :=
  match q.pending.get? key with
  | some job => (some job, { q with
      pending := q.pending.erase key
      byLabel := fun label =>
        if label = job.item.label then (q.byLabel label).erase key else q.byLabel label })
  | none => (none, q)

def entryStale (q : AdaptiveJobQueue) (entry : HeapEntry) (job : AdaptiveJob) : Bool :=
  decide (entry.negPriority ≠ -q.jobPriority job)

def refreshStaleEntry (q : AdaptiveJobQueue) (job : AdaptiveJob) : AdaptiveJobQueue :=
  q.pushHeap job.key (q.jobPriority job)

def rebuildHeap (q : AdaptiveJobQueue) : AdaptiveJobQueue :=
  { q with
    rebuildHeapCalls := q.rebuildHeapCalls + 1
    heap := heapify HeapEntry.before (q.pending.entries.zipIdx.map
      (fun e => ⟨-q.jobPriority e.1.2, q.seq + e.2, e.1.1⟩))
    seq := q.seq + q.pending.size }

def maybeCompactHeap (q : AdaptiveJobQueue) : AdaptiveJobQueue :=
  if q.pending.size ≠ 0 ∧ q.pending.size * 2 + 512 < q.heap.length then q.rebuildHeap else q

def addDone (q : AdaptiveJobQueue) (key : Key) : AdaptiveJobQueue :=
  { q with done := insert key q.done }

def enqueue (q : AdaptiveJobQueue) (job : AdaptiveJob) : Bool × AdaptiveJobQueue :=
  if job.key ∈ q.pending.keys ∨ job.key ∈ q.done then (false, q)
  else
    let priority := q.jobPriority job
    let q := { q with
      pending := q.pending.set job.key job
      byLabel := fun label =>
        if label = job.item.label then insert job.key (q.byLabel label) else q.byLabel label }
    let q := q.pushHeap job.key priority
    (true, { q with metrics := { q.metrics with totalEnqueued := q.metrics.totalEnqueued + 1 } })

def enqueueMany (q : AdaptiveJobQueue) (jobs : List AdaptiveJob) : AdaptiveJobQueue :=
  jobs.foldl (fun q job => (q.enqueue job).2) q

def reservoir (rng : Rng) : Nat → Option Key → List Key → Option Key
  | _, chosen, [] => chosen
  | count, chosen, key :: keys =>
      reservoir rng (count + 1) (if rng.randint (count + 1) = 1 then some key else chosen) keys

def keysOutside (q : AdaptiveJobQueue) (exclude : Finset String) : List Key :=
  (q.pending.entries.filter (fun e => decide (e.2.domain ∉ exclude))).map Prod.fst

def epsilonPickKey (q : AdaptiveJobQueue) (exclude : Finset String) (rng : Rng) : Option Key :=
  match q.keysOutside exclude with
  | [] => reservoir rng 0 none (q.keysOutside q.excludedDomains)
  | keys => reservoir rng 0 none keys

def popSkipped (q : AdaptiveJobQueue) : Nat → List HeapEntry → Option AdaptiveJob × AdaptiveJobQueue
  | 0, _ => (none, q)
  | fuel + 1, skipped => match heappop HeapEntry.before skipped with
    | none => (none, q)
    | some (entry, rest) => match q.dropPending entry.key with
      | (some job, q) => (some job, { q with heap := heappushAll HeapEntry.before q.heap rest })
      | (none, q) => q.popSkipped fuel rest

/-- The heap loop of pop. The result is none only when the fuel runs out. -/
def popHeap (exclude : Finset String) :
    Nat → AdaptiveJobQueue → List HeapEntry → Option (Option AdaptiveJob × AdaptiveJobQueue)
  | 0, _, _ => none
  | fuel + 1, q, skipped => match heappop HeapEntry.before q.heap with
    | none => some (q.popSkipped skipped.length skipped)
    | some (entry, heap) =>
        let q := { q with heap := heap }
        match q.pending.get? entry.key with
        | none => popHeap exclude fuel q skipped
        | some job =>
            if q.entryStale entry job then popHeap exclude fuel (q.refreshStaleEntry job) skipped
            else if job.domain ∈ q.excludedDomains then
              popHeap exclude fuel ((q.addDone job.key).dropPending job.key).2 skipped
            else if job.domain ∈ exclude then popHeap exclude fuel q (skipped ++ [entry])
            else
              let q := (q.dropPending job.key).2
              some (some job, { q with heap := heappushAll HeapEntry.before q.heap skipped })

/-- Each turn of the loop removes an entry or refreshes a stale one, so twice
the heap and one turn to find it empty are enough. -/
def popFuel (q : AdaptiveJobQueue) : Nat := 2 * q.heap.length + 1

def pop (q : AdaptiveJobQueue) (excludeDomains : Finset String) (rng : Rng) :
    Option (Option AdaptiveJob × AdaptiveJobQueue) :=
  if q.pending.size = 0 then some (none, q)
  else
    let exclude := excludeDomains ∪ q.excludedDomains
    if 0 < q.epsilon ∧ rng.random < q.epsilon ∧ 1 < q.pending.size then
      match q.epsilonPickKey exclude rng with
      | none => some (none, q)
      | some key => some (q.dropPending key)
    else popHeap exclude q.popFuel q []

def configureHeapRebuild (q : AdaptiveJobQueue) (every : Int) : AdaptiveJobQueue :=
  { q with heapRebuildEvery := every.toNat, heapRebuildCounter := 0 }

def maybeRebuildHeap (q : AdaptiveJobQueue) : AdaptiveJobQueue :=
  if q.heapRebuildEvery = 0 then q
  else
    let q := { q with heapRebuildCounter := q.heapRebuildCounter + 1 }
    if q.heapRebuildEvery ≤ q.heapRebuildCounter then
      { q.rebuildHeap with heapRebuildCounter := 0 }
    else q

def clusterIndexForFanout (q : AdaptiveJobQueue) : AdaptiveJobQueue :=
  if q.clusterIndex.size = 0 ∧ q.allDomains ≠ [] then
    { q with clusterIndex := clusterDomainIndex q.allDomains }
  else q

def fanoutTo (item : StrategyItem) (acc : Nat × AdaptiveJobQueue) (dom : String) :
    Nat × AdaptiveJobQueue :=
  if dom ∈ acc.2.excludedDomains then acc
  else match acc.2.enqueue (.fromItem item dom true) with
    | (true, q) => (acc.1 + 1, q)
    | (false, q) => (acc.1, q)

def fanoutOnPass (q : AdaptiveJobQueue) (job : AdaptiveJob) : Nat × AdaptiveJobQueue :=
  if q.allDomains = [] then (0, q)
  else
    let q := q.clusterIndexForFanout
    let (added, q) := (siblingDomains job.domain q.clusterIndex).foldl (fanoutTo job.item) (0, q)
    (added, { q with
      metrics := { q.metrics with fanoutEnqueued := q.metrics.fanoutEnqueued + added } })

def closeJob (q : AdaptiveJobQueue) (job : AdaptiveJob) (passed : Bool) : AdaptiveJobQueue :=
  let q := ((q.addDone job.key).dropPending job.key).2
  { q with metrics := q.metrics.recordRun passed }

def boostGenetics (q : AdaptiveJobQueue) (job : AdaptiveJob) : AdaptiveJobQueue :=
  { q with weights := q.weights.boostPass job.family job.blobs job.traits }

def markDone (q : AdaptiveJobQueue) (job : AdaptiveJob) (passed : Bool) : Nat × AdaptiveJobQueue :=
  let q := q.closeJob job passed
  if passed then (q.boostGenetics job).maybeRebuildHeap.maybeCompactHeap.fanoutOnPass job
  else (0, q.maybeCompactHeap)

def matrix (items : List StrategyItem) (domains : List String) : List (StrategyItem × String) :=
  items.flatMap (fun item => domains.map (fun dom => (item, dom)))

def pairKey (p : StrategyItem × String) : Key := (p.1.label, p.2)

def build (items : List StrategyItem) (domains : List String) (weights : Weights) (epsilon : ℚ)
    (skipDomains : Finset String) (skipKeys : Finset Key) : AdaptiveJobQueue :=
  let q := { new weights epsilon with
    allDomains := domains
    clusterIndex := clusterDomainIndex domains
    excludedDomains := skipDomains
    done := (((matrix items domains).map pairKey).filter (· ∈ skipKeys)).toFinset }
  let fresh := (matrix items domains).filter
    (fun p => decide (p.2 ∉ skipDomains ∧ pairKey p ∉ skipKeys))
  let q := q.enqueueMany (fresh.map (fun p => .fromItem p.1 p.2))
  { q with metrics := q.metrics.setHalfMark q.metrics.totalEnqueued }

/-- The iteration order of the label's key set is the caller's list. -/
def pendingDomainsForStrategy (q : AdaptiveJobQueue) (label : String) (order : List Key) :
    List String :=
  (order.filter (· ∈ q.byLabel label)).filterMap (fun k => (q.pending.get? k).map (·.domain))

def batchLoop (first : AdaptiveJob) (maxSize : Nat) (protocol : String) (disableEch : Bool) :
    AdaptiveJobQueue → List AdaptiveJob → List String → List AdaptiveJob × AdaptiveJobQueue
  | q, batch, [] => (batch, q)
  | q, batch, dom :: doms =>
      if maxSize ≤ batch.length then (batch, q)
      else if dom = first.domain then batchLoop first maxSize protocol disableEch q batch doms
      else if !profilesCompatible (curlProfile first.domain protocol disableEch)
          (curlProfile dom protocol disableEch) then
        batchLoop first maxSize protocol disableEch q batch doms
      else match q.dropPending (first.item.label, dom) with
        | (some job, q) => batchLoop first maxSize protocol disableEch q (batch ++ [job]) doms
        | (none, q) => batchLoop first maxSize protocol disableEch q batch doms

def popBatch (q : AdaptiveJobQueue) (maxSize : Nat) (protocol : String) (disableEch : Bool)
    (rng : Rng) (order : List Key) : Option (List AdaptiveJob × AdaptiveJobQueue) := do
  let (first, q) ← q.pop ∅ rng
  match first with
  | none => return ([], q)
  | some first =>
      if maxSize ≤ 1 then return ([first], q)
      else if (curlProfile first.domain protocol disableEch).special then return ([first], q)
      else
        let doms := q.pendingDomainsForStrategy first.item.label order
        let (batch, q) := batchLoop first maxSize protocol disableEch q [first] doms
        return (batch, q.maybeCompactHeap)

/-- One key of filter_resume, with the answer of the caller's check. -/
def resumeKey (acc : Nat × AdaptiveJobQueue) (flag : Key × Bool) : Nat × AdaptiveJobQueue :=
  if flag.2 = true ∧ flag.1 ∈ acc.2.pending.keys then
    (acc.1 + 1, ((acc.2.addDone flag.1).dropPending flag.1).2)
  else acc

def filterResume (q : AdaptiveJobQueue) (check : AdaptiveJob → Bool) : Nat × AdaptiveJobQueue :=
  let flags := q.pending.entries.map (fun e => (e.1, check e.2))
  let (skipped, q) := flags.foldl resumeKey (0, q)
  (skipped, if skipped = 0 then q else q.maybeCompactHeap)

def excludeDomain (q : AdaptiveJobQueue) (domain : String) : AdaptiveJobQueue :=
  { q with excludedDomains := insert domain q.excludedDomains }

end AdaptiveJobQueue

end Blockchecks.AdaptiveQueue
