import Blockchecks.Runs
import Blockchecks.QueuePop

namespace Blockchecks.QueueRuns

open Runs OrderedDict ScanWeights StrategyText AdaptiveQueue AdaptiveJobQueue QueueInvariant QueuePop

/-- The calls that change a queue, with every choice they depend on: random
draws, set iteration order, the answers of a resume check. -/
inductive Op where
  | enqueue (job : AdaptiveJob)
  | pop (excludeDomains : Finset String) (rng : Rng)
  | popBatch (maxSize : Nat) (protocol : String) (disableEch : Bool) (rng : Rng) (order : List Key)
  | markDone (job : AdaptiveJob) (passed : Bool)
  | fanoutOnPass (job : AdaptiveJob)
  | filterResume (check : AdaptiveJob → Bool)
  | configureHeapRebuild (every : Int)
  | excludeDomain (domain : String)

def call (q : AdaptiveJobQueue) : Op → Option AdaptiveJobQueue
  | .enqueue job => some (q.enqueue job).2
  | .pop excludeDomains rng => (q.pop excludeDomains rng).map Prod.snd
  | .popBatch maxSize protocol disableEch rng order =>
      (q.popBatch maxSize protocol disableEch rng order).map Prod.snd
  | .markDone job passed => some (q.markDone job passed).2
  | .fanoutOnPass job => some (q.fanoutOnPass job).2
  | .filterResume check => some (q.filterResume check).2
  | .configureHeapRebuild every => some (q.configureHeapRebuild every)
  | .excludeDomain domain => some (q.excludeDomain domain)

theorem call_valid (q : AdaptiveJobQueue) (op : Op) (hv : Valid q) :
    ∃ q', call q op = some q' ∧ Valid q' := by
  cases op with
  | enqueue job => exact ⟨_, rfl, enqueue_valid hv job⟩
  | pop excludeDomains rng =>
      obtain ⟨r, q', hpop, hv', _⟩ := pop_spec hv excludeDomains rng
      exact ⟨q', by simp [call, hpop], hv'⟩
  | popBatch maxSize protocol disableEch rng order =>
      obtain ⟨batch, q', hpop, hv'⟩ := popBatch_valid hv maxSize protocol disableEch rng order
      exact ⟨q', by simp [call, hpop], hv'⟩
  | markDone job passed => exact ⟨_, rfl, markDone_valid hv job passed⟩
  | fanoutOnPass job => exact ⟨_, rfl, fanoutOnPass_valid hv job⟩
  | filterResume check => exact ⟨_, rfl, filterResume_valid hv check⟩
  | configureHeapRebuild every => exact ⟨_, rfl, hv.congr rfl rfl rfl rfl⟩
  | excludeDomain domain => exact ⟨_, rfl, hv.congr rfl rfl rfl rfl⟩

/-- Any sequence of calls on a freshly built queue returns and keeps the four
structures consistent, so that a pop finds work unless all of it is
hard-excluded. -/
theorem build_calls_lose_no_work (items : List StrategyItem) (domains : List String)
    (weights : Weights) (epsilon : ℚ) (skipDomains : Finset String) (skipKeys : Finset Key)
    (ops : List Op) :
    ∃ q, run call (build items domains weights epsilon skipDomains skipKeys) ops = some q ∧
      (∀ k ∈ q.pending.keys, k ∉ q.done) ∧
      (∀ k job, q.pending.get? k = some job →
        (∃ e ∈ q.heap, e.key = k) ∧ k ∈ q.byLabel job.item.label) ∧
      ∀ excludeDomains rng, ∃ r q', q.pop excludeDomains rng = some (r, q') ∧
        (r = none → ∀ k job, q.pending.get? k = some job → job.domain ∈ q.excludedDomains) := by
  obtain ⟨q, hrun, hv⟩ := run_total call_valid
    (build_valid items domains weights epsilon skipDomains skipKeys) ops
  refine ⟨q, hrun, hv.disjoint, ?_, ?_⟩
  · intro k job hg
    have hk : k ∈ q.pending.keys := (Dict.mem_keys_iff _ _).mpr ⟨job, hg⟩
    have hlabel := hv.labelled k hk
    rw [← hv.keyed k job hg] at hlabel ⊢
    exact ⟨hv.heap (hv.keyed k job hg ▸ hk), hlabel⟩
  · intro excludeDomains rng
    obtain ⟨r, q', hpop, _, hspec⟩ := pop_spec hv excludeDomains rng
    exact ⟨r, q', hpop, hspec.exhausted⟩

/-- A pop hands out no job of a domain that is excluded for good, and one of a domain
that the caller excludes only if the other domains have no pending jobs. -/
theorem pop_excludes {items : List StrategyItem} {domains : List String} {weights : Weights}
    {epsilon : ℚ} {skipDomains : Finset String} {skipKeys : Finset Key} {ops : List Op}
    {q q' : AdaptiveJobQueue} {excludeDomains : Finset String} {rng : Rng} {job : AdaptiveJob}
    (hrun : run call (build items domains weights epsilon skipDomains skipKeys) ops = some q)
    (hpop : q.pop excludeDomains rng = some (some job, q')) :
    job.domain ∉ q.excludedDomains ∧ (job.domain ∈ excludeDomains →
      ∀ k other, q.pending.get? k = some other → other.domain ∉ q.excludedDomains →
        other.domain ∈ excludeDomains) := by
  obtain ⟨q₁, hrun₁, hv⟩ := run_total call_valid
    (build_valid items domains weights epsilon skipDomains skipKeys) ops
  obtain rfl := Option.some.inj (hrun₁.symm.trans hrun)
  obtain ⟨_, hspec⟩ := pop_result hv hpop
  refine ⟨(hspec.taken job rfl).2.1, fun hjob k other hother hfree => ?_⟩
  have hsoft := hspec.soft job rfl (Finset.mem_union_left _ hjob) k other hother
  exact (Finset.mem_union.mp hsoft).resolve_right hfree

/-- With one of two domains excluded for good, the other is handed out although the
caller excludes it. -/
theorem last_domain_handed_out : ∃ q job q',
    run call (build [fakeItem] ["a.example", "b.example"] {} 0 ∅ ∅) [.excludeDomain "b.example"] = some q ∧
      q.pop {"a.example"} .least = some (some job, q') ∧ job.domain ∉ q.excludedDomains ∧
      (job.domain ∈ ({"a.example"} : Finset String) →
        ∀ k other, q.pending.get? k = some other → other.domain ∉ q.excludedDomains →
          other.domain ∈ ({"a.example"} : Finset String)) := by
  have hsome : ((run call (build [fakeItem] ["a.example", "b.example"] {} 0 ∅ ∅)
      [.excludeDomain "b.example"]).bind (fun q => (q.pop {"a.example"} .least).bind Prod.fst)).isSome = true := by
    decide +kernel
  obtain ⟨job, hjob⟩ := Option.isSome_iff_exists.mp hsome
  obtain ⟨q, hrun, hjob⟩ := Option.bind_eq_some_iff.mp hjob
  obtain ⟨⟨r, q'⟩, hpop, rfl⟩ := Option.bind_eq_some_iff.mp hjob
  exact ⟨q, job, q', hrun, hpop, pop_excludes hrun hpop⟩

end Blockchecks.QueueRuns
