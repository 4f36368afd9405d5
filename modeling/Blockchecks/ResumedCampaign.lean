import Blockchecks.ProbeLogger
import Blockchecks.ResumeModes

namespace Blockchecks.ResumedCampaign

open Runs OrderedDict StrategyText Results ScanWeights AdaptiveQueue AdaptiveJobQueue QueueInvariant
  QueuePop QueueMark AdaptiveRunner RunnerSteps RunnerComplete BatchScheduler BatchService ProbeLogger
  Quarantine RunStore RunLog ResumeSkip ResumeModes

/-- A row as a probe logs it, with the backend and the DNS data of the moment. -/
structure Row where
  job : AdaptiveJob
  result : TcpTestResult
  backend : Backend
  dns : DnsMeta

def Row.probe (row : Row) : AdaptiveJob × TcpTestResult := (row.job, row.result)

def Row.entry (row : Row) : TcpEntry :=
  logTcpCampaign row.job.item row.job.domain row.result row.backend row.dns

/-- One call of the program with the resume flag: its arguments, the schedule of
its workers (one more than the number says) and the rows that reach the store. -/
structure Launch where
  items : List StrategyItem
  domains : List String
  reprobeFailed : Int
  quarantineFromArgs : Option QuarantineConfig
  weights : Weights
  epsilon : ℚ
  bridgeBatch : Nat
  isolate : Bool
  workers : Nat
  schedule : List (Action workers)
  rows : List Row

/-- A run with the probes that have returned a result, in their order. -/
structure Probing (k : Nat) where
  run : Run k
  probes : List (AdaptiveJob × TcpTestResult)

variable {k : Nat}

def probed (s : Run k) : Action k → List (AdaptiveJob × TcpTestResult)
  | .batchReturns w results => match (s.workers w).pc with
    | .probing batch _ => batch.jobs.zip results
    | _ => []
  | .singleReturns w result _ => match (s.workers w).pc with
    | .single job => [(job, result)]
    | _ => []
  | _ => []

def step (bridgeBatch : Nat) (s : Probing k) (a : Action k) : Option (Probing k) :=
  (AdaptiveRunner.step bridgeBatch s.run a).map (fun run => ⟨run, s.probes ++ probed s.run a⟩)

namespace Launch

variable (l : Launch) (db : Db) (runId : Nat)

def session : Session where
  db := db
  runId := runId
  items := l.items
  domains := l.domains
  reprobeFailed := l.reprobeFailed
  quarantineFromArgs := l.quarantineFromArgs
  weights := l.weights
  epsilon := l.epsilon
  ctxQuarantine := none
  tracker := {}
  scanLevel := ""

def skipKeys : Finset Key := db.getResumeSkipTcpKeys (some runId) "tcp" l.reprobeFailed

def initial : Run l.workers :=
  AdaptiveRunner.initial l.workers l.bridgeBatch l.isolate (l.session db runId).seededExclude.toFinset
    (l.session db runId).adaptiveQueue

def outcome : Option (Probing l.workers) :=
  run (step l.bridgeBatch) ⟨l.initial db runId, []⟩ l.schedule

end Launch

/-- A launch on a store. A probe is logged at most once; a crash may lose rows. -/
def operate (runId : Nat) (db : Db) (l : Launch) : Option Db :=
  (l.outcome db runId).bind (fun s =>
    if (l.rows.map Row.probe).Subperm s.probes then some (writeAll db runId (l.rows.map Row.entry))
    else none)

/-- All the domains that a fan-out can reach. -/
def Within (domains : List String) (q : AdaptiveJobQueue) : Prop :=
  q.allDomains ⊆ domains ∧ ∀ cluster doms, q.clusterIndex.get? cluster = some doms → doms ⊆ domains

/-- What a launch may probe. -/
def Fits (items : List StrategyItem) (domains : List String) (skip : Finset Key) (job : AdaptiveJob) : Prop :=
  job.item ∈ items ∧ job.domain ∈ domains ∧ job.key ∉ skip

structure Fitting (items : List StrategyItem) (domains : List String) (skip : Finset Key)
    (q : AdaptiveJobQueue) : Prop where
  within : Within domains q
  done : ∀ item ∈ items, ∀ dom ∈ domains, (item.label, dom) ∈ skip → (item.label, dom) ∈ q.done
  pending : ∀ key job, q.pending.get? key = some job → Fits items domains skip job

variable {bridgeBatch runId : Nat} {items : List StrategyItem} {domains : List String} {skip : Finset Key}
  {q q' : AdaptiveJobQueue} {job : AdaptiveJob}

theorem mem_matrix_iff {p : StrategyItem × String} : p ∈ matrix items domains ↔ p.1 ∈ items ∧ p.2 ∈ domains := by
  rw [matrix, List.mem_flatMap]
  constructor
  · rintro ⟨item, hitem, hp⟩
    obtain ⟨dom, hdom, rfl⟩ := List.mem_map.mp hp
    exact ⟨hitem, hdom⟩
  · rintro ⟨hitem, hdom⟩
    exact ⟨p.1, hitem, List.mem_map_of_mem hdom⟩

theorem clusterDomainIndex_subset (domains : List String) :
    ∀ cluster doms, (clusterDomainIndex domains).get? cluster = some doms → doms ⊆ domains := by
  suffices hfold : ∀ (rest : List String) (idx : Dict Cluster (List String)), rest ⊆ domains →
      (∀ cluster doms, idx.get? cluster = some doms → doms ⊆ domains) →
      ∀ cluster doms, (rest.foldl (fun idx d =>
        idx.set (clusterDomain d) ((idx.get? (clusterDomain d)).getD [] ++ [d])) idx).get? cluster = some doms →
        doms ⊆ domains by
    exact hfold domains .empty (List.Subset.refl _) (fun _ _ h => by cases h)
  intro rest
  induction rest with
  | nil => exact fun _ _ hidx => hidx
  | cons d rest ih =>
      intro idx hrest hidx
      obtain ⟨hd, hrest⟩ := List.cons_subset.mp hrest
      refine ih _ hrest (fun cluster doms hget => ?_)
      rw [Dict.get?_set] at hget
      split at hget
      · obtain rfl := Option.some.inj hget
        refine List.append_subset.mpr ⟨?_, List.cons_subset.mpr ⟨hd, List.nil_subset _⟩⟩
        cases hold : idx.get? (clusterDomain d) with
        | none => exact List.nil_subset _
        | some doms => exact hidx _ doms hold
      · exact hidx cluster doms hget

theorem clusterIndexForFanout_within (h : Within domains q) : Within domains q.clusterIndexForFanout := by
  rw [clusterIndexForFanout]
  split
  · exact ⟨h.1, fun cluster doms hget => List.Subset.trans (clusterDomainIndex_subset _ cluster doms hget) h.1⟩
  · exact h

theorem fanoutDomains_subset (h : Within domains q) (job : AdaptiveJob) : fanoutDomains q job ⊆ domains := by
  rw [fanoutDomains]
  split
  · exact List.nil_subset _
  · rw [siblingDomains]
    refine List.Subset.trans (List.filter_subset_self _) (List.Subset.trans (List.filter_subset_self _) ?_)
    cases hget : q.clusterIndexForFanout.clusterIndex.get? (clusterDomain job.domain) with
    | none => exact List.nil_subset _
    | some doms => exact (clusterIndexForFanout_within h).2 _ doms hget

theorem Within.congr (h : Within domains q) (hall : q'.allDomains = q.allDomains)
    (hidx : q'.clusterIndex = q.clusterIndex) : Within domains q' :=
  ⟨hall ▸ h.1, hidx ▸ h.2⟩

theorem fanoutTo_within (item : StrategyItem) (acc : Nat × AdaptiveJobQueue) (dom : String)
    (h : Within domains acc.2) : Within domains (fanoutTo item acc dom).2 := by
  obtain ⟨_, hall, _, hidx⟩ := enqueue_frame acc.2 (.fromItem item dom true)
  rw [fanoutTo]
  split
  · exact h
  · split <;>
    next he =>
      rw [he] at hall hidx
      exact h.congr hall hidx

theorem fanoutOnPass_within (h : Within domains q) (job : AdaptiveJob) : Within domains (q.fanoutOnPass job).2 := by
  rw [fanoutOnPass]
  split
  · exact h
  · dsimp only
    suffices hfold : ∀ (doms : List String) (acc : Nat × AdaptiveJobQueue), Within domains acc.2 →
        Within domains (doms.foldl (fanoutTo job.item) acc).2 by
      exact hfold _ (0, q.clusterIndexForFanout) (clusterIndexForFanout_within h)
    intro doms
    induction doms with
    | nil => exact fun _ hacc => hacc
    | cons dom doms ih => exact fun acc hacc => ih _ (fanoutTo_within job.item acc dom hacc)

theorem markDone_within (h : Within domains q) (job : AdaptiveJob) (passed : Bool) :
    Within domains (q.markDone job passed).2 := by
  obtain ⟨_, _, _, hall, hidx⟩ := closeJob_spec q job passed
  have hclosed : Within domains (q.closeJob job passed) := h.congr hall hidx
  rw [markDone]
  cases passed with
  | false =>
      have hs := maybeCompactHeap_same (q.closeJob job false)
      exact hclosed.congr hs.allDomains hs.clusterIndex
  | true =>
      have hs := (maybeRebuildHeap_same ((q.closeJob job true).boostGenetics job)).trans
        (maybeCompactHeap_same _)
      exact fanoutOnPass_within (hclosed.congr hs.allDomains hs.clusterIndex) job

theorem Fitting.congr (h : Fitting items domains skip q) (hs : SameJobs q q') :
    Fitting items domains skip q' :=
  ⟨h.within.congr hs.allDomains hs.clusterIndex, hs.done ▸ h.done, hs.pending ▸ h.pending⟩

theorem Fitting.pop (h : Fitting items domains skip q) {exclude : Finset String} {r : Option AdaptiveJob}
    (hspec : PopSpec q exclude r q') : Fitting items domains skip q' where
  within := h.within.congr hspec.allDomains hspec.clusterIndex
  done := fun item hitem dom hdom hskip => hspec.done_subset (h.done item hitem dom hdom hskip)
  pending := fun key job hget => h.pending key job (hspec.subset key job hget)

/-- A fan-out goes to a domain of the launch, and not to a key that is done. -/
theorem Fitting.markDone (h : Fitting items domains skip q) (hjob : job.item ∈ items) (passed : Bool) :
    Fitting items domains skip (q.markDone job passed).2 := by
  have hspec := markDone_spec q job passed
  refine ⟨markDone_within h.within job passed, ?_, ?_⟩
  · intro item hitem dom hdom hskip
    rw [hspec.done]
    exact Finset.mem_insert_of_mem (h.done item hitem dom hdom hskip)
  · intro key j hget
    obtain ⟨_, hold | ⟨_, rfl, hlabel, hdom, hfree⟩⟩ := hspec.new key j hget
    · exact h.pending key j hold
    · have hdom := fanoutDomains_subset h.within job hdom
      have hkey : key = (job.item.label, key.2) := Prod.ext hlabel rfl
      refine ⟨hjob, hdom, fun hskip => hfree ?_⟩
      rw [hkey]
      exact h.done job.item hjob key.2 hdom hskip

theorem pending_enqueueMany {jobs : List AdaptiveJob} {key : Key}
    (h : (q.enqueueMany jobs).pending.get? key = some job) :
    q.pending.get? key = some job ∨ job ∈ jobs := by
  rw [enqueueMany] at h
  induction jobs generalizing q with
  | nil => exact Or.inl h
  | cons j jobs ih =>
      rcases ih h with hget | hmem
      · rw [get?_enqueue] at hget
        split at hget
        · exact Or.inr (Option.some.inj hget ▸ List.mem_cons_self)
        · exact Or.inl hget
      · exact Or.inr (List.mem_cons_of_mem j hmem)

theorem enqueueMany_within (h : Within domains q) (jobs : List AdaptiveJob) :
    Within domains (q.enqueueMany jobs) := by
  rw [enqueueMany]
  induction jobs generalizing q with
  | nil => exact h
  | cons j jobs ih =>
      obtain ⟨_, hall, _, hidx⟩ := enqueue_frame q j
      exact ih (h.congr hall hidx)

theorem build_fitting (items : List StrategyItem) (domains : List String) (weights : Weights) (epsilon : ℚ)
    (skipDomains : Finset String) (skip : Finset Key) :
    Fitting items domains skip (build items domains weights epsilon skipDomains skip) := by
  refine ⟨?_, ?_, ?_⟩
  · exact enqueueMany_within ⟨List.Subset.refl _, clusterDomainIndex_subset domains⟩ _
  · intro item hitem dom hdom hskip
    have hdone : (build items domains weights epsilon skipDomains skip).done =
        (((matrix items domains).map pairKey).filter (· ∈ skip)).toFinset := (enqueueMany_frame _ _).1
    rw [hdone, List.mem_toFinset, List.mem_filter]
    exact ⟨List.mem_map.mpr ⟨(item, dom), mem_matrix_iff.mpr ⟨hitem, hdom⟩, rfl⟩, decide_eq_true hskip⟩
  · intro key job hget
    rcases pending_enqueueMany hget with hnone | hmem
    · cases hnone
    · obtain ⟨p, hp, rfl⟩ := List.mem_map.mp hmem
      obtain ⟨hp, hfresh⟩ := List.mem_filter.mp hp
      obtain ⟨hitem, hdom⟩ := mem_matrix_iff.mp hp
      exact ⟨hitem, hdom, (of_decide_eq_true hfresh).2⟩

/-- No worker has got a job that the launch must not probe. -/
structure Remaining (items : List StrategyItem) (domains : List String) (skip : Finset Key) (s : Run k) : Prop where
  sound : Sound s
  fitting : Fitting items domains skip s.queue
  handed : ∀ job ∈ s.handed, Fits items domains skip job

theorem handed_of_held {s : Run k} (h : Sound s) {w : Fin (k + 1)} (hjob : job ∈ held (s.workers w)) :
    job ∈ s.handed := by
  have hmem : job ∈ (ledger s).settled + ∑ w, (ledger s).held w :=
    Multiset.mem_add.mpr (.inr (Multiset.mem_sum.mpr ⟨w, Finset.mem_univ w, hjob⟩))
  rw [← h.balanced] at hmem
  exact hmem

theorem Remaining.account {s t : Run k} {wk : Worker} {w : Fin (k + 1)}
    (h : Remaining items domains skip s) (hjob : job ∈ s.handed) (hacc : Accounted s job t)
    (hsound : Sound (t.put w wk)) : Remaining items domains skip (t.put w wk) := by
  obtain ⟨hitem, _, _⟩ := h.handed job hjob
  refine ⟨hsound, ?_, fun j hj => h.handed j (hacc.handed ▸ hj)⟩
  obtain ⟨passed, hq | hq⟩ := hacc.queue
  · exact hq ▸ h.fitting.markDone hitem passed
  · have hmarked := h.fitting.markDone hitem passed
    exact hq ▸ (show Fitting items domains skip (((s.queue.markDone job passed).2).excludeDomain job.domain) from
      ⟨hmarked.within, hmarked.done, hmarked.pending⟩)

theorem effect_remaining {s t : Run k} {a : Action k} (h : Remaining items domains skip s)
    (heff : Effect bridgeBatch s a t) : Remaining items domains skip t := by
  have hsound := effect_sound h.sound heff
  cases heff with
  | setStop | move | probed | released | singleReleased => exact ⟨hsound, h.fitting, h.handed⟩
  | start => exact ⟨hsound, h.fitting.congr ⟨rfl, rfl, rfl, rfl, rfl⟩, h.handed⟩
  | refused _ _ hpop => exact ⟨hsound, h.fitting.pop (pop_result h.sound.valid hpop).2, h.handed⟩
  | @popped w rng q job _ _ hpop =>
      have hspec := (pop_result h.sound.valid hpop).2
      refine ⟨hsound, h.fitting.pop hspec, fun j hj => ?_⟩
      rcases List.mem_cons.mp hj with rfl | hj
      · exact h.fitting.pending _ j (hspec.taken j rfl).1
      · exact h.handed j hj
  | @accounted w newly batch job result rest after t hpc hacc =>
      refine h.account (handed_of_held (w := w) h.sound ?_) hacc hsound
      simp [held, hpc, pcHeld]
  | @singleDone w result newly job t hpc hacc =>
      refine h.account (handed_of_held (w := w) h.sound ?_) hacc hsound
      simp [held, hpc, pcHeld]

theorem handed_subset {s t : Run k} {a : Action k} (heff : Effect bridgeBatch s a t) : s.handed ⊆ t.handed := by
  cases heff with
  | popped => exact List.subset_cons_self _ _
  | accounted _ hacc | singleDone _ hacc => exact hacc.handed ▸ List.Subset.refl _
  | setStop | start | move | refused | probed | released | singleReleased => exact List.Subset.refl _

theorem probed_held {s : Run k} {a : Action k} {p : AdaptiveJob × TcpTestResult} (hp : p ∈ probed s a) :
    ∃ w, p.1 ∈ held (s.workers w) := by
  cases a with
  | batchReturns w results =>
      rw [probed] at hp
      split at hp
      next hpc =>
        refine ⟨w, List.mem_append_right _ ?_⟩
        rw [hpc]
        exact List.mem_append_left _ (List.of_mem_zip hp).1
      next => cases hp
  | singleReturns w result newly =>
      rw [probed] at hp
      split at hp
      next hpc =>
        refine ⟨w, List.mem_append_right _ ?_⟩
        rw [hpc, List.mem_singleton.mp hp]
        exact List.mem_singleton_self _
      next => cases hp
  | setStop | start | move | pop | account | release => cases hp

/-- What a launch has probed, it was free to probe. -/
structure Traced (items : List StrategyItem) (domains : List String) (skip : Finset Key) (s : Probing k) : Prop where
  remaining : Remaining items domains skip s.run
  probed : ∀ p ∈ s.probes, p.1 ∈ s.run.handed

theorem step_effects {s t : Probing k} {a : Action k} (hs : Sound s.run) (h : step bridgeBatch s a = some t) :
    Effect bridgeBatch s.run a t.run ∧ t.probes = s.probes ++ probed s.run a := by
  obtain ⟨u, hu, rfl⟩ := Option.map_eq_some_iff.mp h
  exact ⟨step_effect hs.sane hu, rfl⟩

theorem step_traced {s t : Probing k} {a : Action k} (h : Traced items domains skip s)
    (hstep : step bridgeBatch s a = some t) : Traced items domains skip t := by
  obtain ⟨heff, hprobes⟩ := step_effects h.remaining.sound hstep
  refine ⟨effect_remaining h.remaining heff, fun p hp => handed_subset heff ?_⟩
  rw [hprobes] at hp
  rcases List.mem_append.mp hp with hold | hnew
  · exact h.probed p hold
  · obtain ⟨w, hheld⟩ := probed_held hnew
    exact handed_of_held h.remaining.sound hheld

variable {l : Launch} {db db' : Db} {key : Key}

theorem exclude_again {doms : Finset String} (h : q.excludedDomains = doms) :
    { q with excludedDomains := q.excludedDomains ∪ doms } = q := by
  subst h
  rw [Finset.union_self]

theorem session_queue (l : Launch) (db : Db) (runId : Nat) :
    (l.session db runId).adaptiveQueue = buildAdaptiveQueue l.items l.domains l.weights l.epsilon
      (l.session db runId).seededExclude.toFinset (l.skipKeys db runId) none :=
  exclude_again (build_excluded _ _ _ _ _ _)

theorem outcome_traced {s : Probing l.workers} (h : l.outcome db runId = some s) :
    Traced l.items l.domains (l.skipKeys db runId) s := by
  refine run_invariant (fun _ _ _ hp hstep => step_traced hp hstep) ⟨?_, fun _ hp => by cases hp⟩ h
  rw [Launch.initial, session_queue]
  exact ⟨initial_sound (buildAdaptiveQueue_valid _ _ _ _ _ _ none) _ _, build_fitting _ _ _ _ _ _,
    fun _ hj => by cases hj⟩

theorem operate_eq_some (h : operate runId db l = some db') :
    ∃ s, l.outcome db runId = some s ∧ (l.rows.map Row.probe).Subperm s.probes ∧
      db' = writeAll db runId (l.rows.map Row.entry) := by
  obtain ⟨s, hs, h⟩ := Option.bind_eq_some_iff.mp h
  split at h
  next hrows => exact ⟨s, hs, hrows, (Option.some.inj h).symm⟩
  next => cases h

@[simp] theorem entryKey_entry (row : Row) : entryKey row.entry = row.job.key := rfl

theorem operate_fits (h : operate runId db l = some db') :
    ∀ row ∈ l.rows, Fits l.items l.domains (l.skipKeys db runId) row.job := by
  obtain ⟨s, hs, hrows, _⟩ := operate_eq_some h
  have htraced := outcome_traced hs
  intro row hrow
  have hprobe : row.probe ∈ s.probes := hrows.subset (List.mem_map_of_mem hrow)
  exact htraced.remaining.handed _ (htraced.probed _ hprobe)

/-- A launch writes nothing for a key that it skips. -/
theorem operate_keeps (h : operate runId db l = some db') (hskip : key ∈ l.skipKeys db runId) (proto : String) :
    (log db').filter (fun row => row.is proto (inRun runId) key) =
      (log db).filter (fun row => row.is proto (inRun runId) key) := by
  have hfits := operate_fits h
  obtain ⟨_, _, _, rfl⟩ := operate_eq_some h
  have hnone : ((l.rows.map Row.entry).map (loggedEntry runId)).filter (fun row => row.is proto (inRun runId) key) =
      [] := by
    rw [List.filter_eq_nil_iff]
    intro row hrow his
    obtain ⟨entry, hentry, rfl⟩ := List.mem_map.mp hrow
    obtain ⟨row, hmem, rfl⟩ := List.mem_map.mp hentry
    obtain ⟨_, hkey⟩ := loggedEntry_is.mp his
    rw [entryKey_entry] at hkey
    exact (hfits row hmem).2.2 (hkey ▸ hskip)
  rw [log_writeAll, List.filter_append, hnone, List.append_nil]

theorem mem_skipKeys_of_working {row : Logged} (hlast : lastLogged (log db) "tcp" (inRun runId) key = some row)
    (hworks : row.columns.isWorking = true) (l : Launch) : key ∈ l.skipKeys db runId := by
  rw [Launch.skipKeys, resumeSkip_toNat, mem_getResumeSkipTcpKeys]
  exact ⟨row, hlast, Or.inl hworks⟩

/-- A key whose last row works: no launch of the campaign probes it again, so that
the row stays its last one. What a launch does probe is a pair of its matrix that
its skip set does not hold. -/
theorem working_key_settled (runId : Nat) (launches : List Launch) (db db' : Db)
    (hrun : run (operate runId) db launches = some db') :
    Along (operate runId) (fun db l => ∀ s, l.outcome db runId = some s → ∀ job ∈ s.run.handed,
      job.item ∈ l.items ∧ job.domain ∈ l.domains ∧ job.key ∉ l.skipKeys db runId) db launches ∧
    ∀ key row, lastLogged (log db) "tcp" (inRun runId) key = some row → row.columns.isWorking = true →
      lastLogged (log db') "tcp" (inRun runId) key = some row ∧
      Along (operate runId) (fun db l => ∀ s, l.outcome db runId = some s →
        ∀ job ∈ s.run.handed, job.key ≠ key) db launches := by
  constructor
  · exact (along_true db launches).mono (P := fun _ => True) (fun _ _ _ _ _ _ => trivial)
      (fun _ _ _ _ _ hs => (outcome_traced hs).remaining.handed) trivial
  · intro key row hlast hworks
    have hstep : ∀ db l db', lastLogged (log db) "tcp" (inRun runId) key = some row → True →
        operate runId db l = some db' → lastLogged (log db') "tcp" (inRun runId) key = some row := by
      intro db l db' hlast _ h
      rw [lastLogged, operate_keeps h (mem_skipKeys_of_working hlast hworks l)]
      exact hlast
    refine ⟨along_invariant hstep hlast (along_true db launches) hrun, ?_⟩
    refine (along_true db launches).mono hstep (fun db l hlast _ s hs job hjob hkey => ?_) hlast
    have hfits := (outcome_traced hs).remaining.handed job hjob
    exact hfits.2.2 (hkey ▸ mem_skipKeys_of_working hlast hworks l)

def passedOnce : Row where
  job := .fromItem splitItem "a.example"
  result := { item := splitItem, domain := "a.example", success := true, bridgeApplied := some true }
  backend := .luaBridge
  dns := {}

def failedOnce : Row where
  job := .fromItem splitItem "b.example"
  result := { item := splitItem, domain := "b.example", error := "timeout" }
  backend := .luaBridge
  dns := {}

def afterFirst : Db := emptyDb.write 1 passedOnce.entry

/-- One worker goes through two domains after a launch that has passed the first. -/
def secondLaunch : Launch where
  items := [splitItem]
  domains := ["a.example", "b.example"]
  reprobeFailed := 0
  quarantineFromArgs := none
  weights := {}
  epsilon := 0
  bridgeBatch := 1
  isolate := true
  workers := 0
  schedule := [.start 0, .pop 0 .least, .move 0, .move 0, .move 0, .batchReturns 0 [failedOnce.result],
    .account 0 false, .move 0, .release 0, .move 0, .move 0, .pop 0 .least, .move 0, .move 0]
  rows := [failedOnce]

theorem secondLaunch_leaves_pass : ∃ db' row, run (operate 1) afterFirst [secondLaunch] = some db' ∧
    row.columns.isWorking = true ∧ lastLogged (log db') "tcp" (inRun 1) passedOnce.job.key = some row ∧
    Along (operate 1) (fun db l => ∀ s, l.outcome db 1 = some s → ∀ job ∈ s.run.handed, job.key ≠ passedOnce.job.key)
      afterFirst [secondLaunch] := by
  have hrun : (run (operate 1) afterFirst [secondLaunch]).isSome = true := by decide +kernel
  have hpass : (lastLogged (log afterFirst) "tcp" (inRun 1) passedOnce.job.key).any
      (fun row => row.columns.isWorking) = true := by decide +kernel
  obtain ⟨db', hdb'⟩ := Option.isSome_iff_exists.mp hrun
  obtain ⟨row, hlast, hworks⟩ := (Option.any_eq_true _ _).mp hpass
  obtain ⟨hkept, halong⟩ := (working_key_settled 1 [secondLaunch] afterFirst db' hdb').2 _ row hlast hworks
  exact ⟨db', row, hdb', hworks, hkept, halong⟩

def batchOf : Pc → Option Batch
  | .probing batch _ => some batch
  | _ => none

/-- A batch that nobody stops brings a result for each of its jobs. -/
def Full (s : Probing k) : Action k → Prop
  | .batchReturns w results => ∀ batch ∈ batchOf (s.run.workers w).pc, results.length = batch.jobs.length
  | _ => True

instance (s : Probing k) : (a : Action k) → Decidable (Full s a)
  | .batchReturns w results =>
      inferInstanceAs (Decidable (∀ batch ∈ batchOf (s.run.workers w).pc, results.length = batch.jobs.length))
  | .setStop | .start _ | .move _ | .pop _ _ | .account _ _ | .singleReturns _ _ _ | .release _ => isTrue trivial

def awaiting : Pc → List AdaptiveJob
  | .accounting _ rest _ => rest.map Prod.fst
  | _ => []

/-- No job is accounted before its probe has returned. -/
structure Answered (s : Probing k) : Prop where
  sound : Sound s.run
  accounted : ∀ job ∈ s.run.accounted, job ∈ s.probes.map Prod.fst
  awaiting : ∀ w, ∀ job ∈ awaiting (s.run.workers w).pc, job ∈ s.probes.map Prod.fst

theorem moved_awaiting {stop : Bool} {wk wk' : Worker} (h : Moved stop wk wk') : awaiting wk'.pc = [] := by
  cases h <;> rfl

theorem awaiting_put {s : Run k} {w : Fin (k + 1)} {wk : Worker} {jobs : List AdaptiveJob}
    (hall : ∀ w, ∀ job ∈ awaiting (s.workers w).pc, job ∈ jobs) (hone : ∀ job ∈ awaiting wk.pc, job ∈ jobs) :
    ∀ w', ∀ job ∈ awaiting ((s.put w wk).workers w').pc, job ∈ jobs :=
  forall_put (P := fun wk => ∀ job ∈ awaiting wk.pc, job ∈ jobs) hall hone

theorem step_answered {s t : Probing k} {a : Action k} (h : Answered s) (hfull : Full s a)
    (hstep : step bridgeBatch s a = some t) : Answered t := by
  obtain ⟨heff, hprobes⟩ := step_effects h.sound hstep
  have hsub : s.probes.map Prod.fst ⊆ t.probes.map Prod.fst := by
    rw [hprobes, List.map_append]
    exact List.subset_append_left _ _
  have hacc : ∀ job ∈ s.run.accounted, job ∈ t.probes.map Prod.fst := fun job hjob => hsub (h.accounted job hjob)
  have hwait : ∀ w, ∀ job ∈ awaiting (s.run.workers w).pc, job ∈ t.probes.map Prod.fst :=
    fun w job hjob => hsub (h.awaiting w job hjob)
  have hsound := effect_sound h.sound heff
  cases t with
  | mk t probes =>
  dsimp only at heff hprobes hsound hacc hwait hsub
  cases heff with
  | setStop => exact ⟨hsound, hacc, hwait⟩
  | start => exact ⟨hsound, hacc, awaiting_put (s := { s.run with queue := _ }) hwait (fun _ hj => by cases hj)⟩
  | move hm =>
      refine ⟨hsound, hacc, awaiting_put hwait (fun _ hj => ?_)⟩
      rw [moved_awaiting hm] at hj
      cases hj
  | refused => exact ⟨hsound, hacc, awaiting_put (s := { s.run with queue := _ }) hwait (fun _ hj => by cases hj)⟩
  | popped =>
      exact ⟨hsound, hacc, awaiting_put (s := { s.run with queue := _, isolation := _, handed := _ }) hwait
        (fun _ hj => by cases hj)⟩
  | @probed w results batch after hpc hle =>
      refine ⟨hsound, hacc, awaiting_put hwait (fun job hjob => ?_)⟩
      have hlength : results.length = batch.jobs.length := hfull batch (by rw [hpc]; rfl)
      have hjob : job ∈ batch.jobs := by
        simpa only [awaiting, zip_padResults hle] using hjob
      rw [hprobes, List.map_append]
      refine List.mem_append_right _ ?_
      simp only [probed, hpc]
      rw [List.map_fst_zip (by omega)]
      exact hjob
  | @accounted w newly batch job result rest after t hpc hacc' =>
      have hold := hwait w
      simp only [hpc, awaiting, List.map_cons, List.forall_mem_cons] at hold
      refine ⟨hsound, ?_, awaiting_put (s := t) (hacc'.workers ▸ hwait) hold.2⟩
      intro j hj
      rcases List.mem_cons.mp (hacc'.accounted ▸ hj) with rfl | hj
      · exact hold.1
      · exact hacc j hj
  | @singleDone w result newly job t hpc hacc' =>
      refine ⟨hsound, ?_, awaiting_put (s := t) (hacc'.workers ▸ hwait) (fun _ hj => by cases hj)⟩
      intro j hj
      rcases List.mem_cons.mp (hacc'.accounted ▸ hj) with rfl | hj
      · rw [hprobes, List.map_append]
        refine List.mem_append_right _ ?_
        simp [probed, hpc]
      · exact hacc j hj
  | released => exact ⟨hsound, hacc, awaiting_put (s := s.run.release _) hwait (fun _ hj => by cases hj)⟩
  | singleReleased => exact ⟨hsound, hacc, awaiting_put (s := s.run.release _) hwait (fun _ hj => by cases hj)⟩

theorem outcome_covered {s : Probing l.workers} (hs : l.outcome db runId = some s) {item : StrategyItem}
    {dom : String} (hitem : item ∈ l.items) (hdom : dom ∈ l.domains)
    (hskip : (item.label, dom) ∉ l.skipKeys db runId) : Complete (item.label, dom) s.run := by
  refine run_invariant (P := fun s => Complete (item.label, dom) s.run) ?_ ?_ hs
  · intro s a t hc hstep
    obtain ⟨u, hu, rfl⟩ := Option.map_eq_some_iff.mp hstep
    exact step_complete hc hu
  · dsimp only
    rw [Launch.initial, session_queue]
    refine initial_complete (buildAdaptiveQueue_valid _ _ _ _ _ _ none) ?_
    exact buildAdaptiveQueue_covers l.items l.domains l.weights l.epsilon _ _ none
      (p := (item, dom)) (mem_matrix_iff.mpr ⟨hitem, hdom⟩) hskip (fun ⟨_, h, _⟩ => by cases h) _ _

theorem outcome_answered {s : Probing l.workers} (hs : l.outcome db runId = some s)
    (hfull : Along (step l.bridgeBatch) Full ⟨l.initial db runId, []⟩ l.schedule) : Answered s := by
  refine along_invariant (fun _ _ _ hp hf hstep => step_answered hp hf hstep) ⟨?_, ?_, ?_⟩ hfull hs
  · rw [Launch.initial, session_queue]
    exact initial_sound (buildAdaptiveQueue_valid _ _ _ _ _ _ none) _ _
  · exact fun _ hj => by cases hj
  · exact fun _ _ hj => by cases hj

/-- Some row of the run is about the pair. -/
def HasRow (db : Db) (runId : Nat) (item : StrategyItem) (dom : String) : Prop :=
  ∃ row ∈ log db, row.runId = some runId ∧ row.name = item.label ∧ row.columns.domain = dom

/-- A launch that nobody stops, after any others and on whatever they have left in
the store, ends with a row for each pair of its matrix whose domain is not
excluded, if its rows all reach the store. -/
theorem unstopped_launch_covers (runId : Nat) (db db' : Db) (l : Launch) (s : Probing l.workers)
    (hop : operate runId db l = some db') (hs : l.outcome db runId = some s)
    (hfull : Along (step l.bridgeBatch) Full ⟨l.initial db runId, []⟩ l.schedule)
    (hrows : (l.rows.map Row.probe).Perm s.probes) (hstop : s.run.stop = false)
    (hret : ∀ w, (s.run.workers w).pc = .returned) :
    ∀ item ∈ l.items, ∀ dom ∈ l.domains, HasRow db' runId item dom ∨ dom ∈ s.run.queue.excludedDomains := by
  intro item hitem dom hdom
  obtain ⟨_, _, _, rfl⟩ := operate_eq_some hop
  have hanswered := outcome_answered hs hfull
  rw [HasRow, log_writeAll]
  by_cases hskip : (item.label, dom) ∈ l.skipKeys db runId
  · -- a skipped pair has the row that makes the launch skip it
    rw [Launch.skipKeys, resumeSkip_toNat, mem_getResumeSkipTcpKeys] at hskip
    obtain ⟨row, hlast, _⟩ := hskip
    obtain ⟨hmem, his⟩ := List.mem_filter.mp (List.mem_of_getLast? hlast)
    obtain ⟨_, hrun, hname, hdomain⟩ := Logged.is_iff.mp his
    exact Or.inl ⟨row, List.mem_append_left _ hmem, of_decide_eq_true hrun, hname, hdomain⟩
  · obtain ⟨hcovered, hemptied⟩ := (outcome_covered hs hitem hdom hskip).2 hstop
    rcases hcovered with hex | ⟨job, hjob, hkey⟩ | ⟨w, job, hjob, _⟩ | ⟨_, w, hw⟩
    · exact Or.inr hex
    · have hprobe := hanswered.accounted job hjob
      rw [← hrows.map Prod.fst |>.mem_iff, List.map_map] at hprobe
      obtain ⟨row, hrow, rfl⟩ := List.mem_map.mp hprobe
      refine Or.inl ⟨loggedEntry runId row.entry, List.mem_append_right _ ?_, rfl, ?_, ?_⟩
      · exact List.mem_map_of_mem (List.mem_map_of_mem hrow)
      · exact congrArg Prod.fst hkey
      · exact congrArg Prod.snd hkey
    · simp [held, pcHeld, hret w, hemptied w (hret w)] at hjob
    · rw [hret w] at hw
      exact absurd trivial hw

theorem secondLaunch_covers : ∃ db' s, operate 1 afterFirst secondLaunch = some db' ∧
    secondLaunch.outcome afterFirst 1 = some s ∧ ∀ item ∈ secondLaunch.items, ∀ dom ∈ secondLaunch.domains,
      HasRow db' 1 item dom ∨ dom ∈ s.run.queue.excludedDomains := by
  have hrun : (operate 1 afterFirst secondLaunch).isSome = true := by decide +kernel
  have hfull : Along (step 1) Full ⟨secondLaunch.initial afterFirst 1, []⟩ secondLaunch.schedule := by
    decide +kernel
  have hend : (secondLaunch.outcome afterFirst 1).any (fun s => decide (s.run.stop = false ∧
      (∀ w, (s.run.workers w).pc = .returned) ∧ s.probes = [failedOnce.probe])) = true := by decide +kernel
  obtain ⟨db', hdb'⟩ := Option.isSome_iff_exists.mp hrun
  obtain ⟨s, hs, hend⟩ := (Option.any_eq_true _ _).mp hend
  obtain ⟨hstop, hret, hprobes⟩ := of_decide_eq_true hend
  refine ⟨db', s, hdb', hs, unstopped_launch_covers 1 afterFirst db' secondLaunch s hdb' hs hfull ?_ hstop hret⟩
  rw [hprobes]
  exact List.Perm.refl _

end Blockchecks.ResumedCampaign
