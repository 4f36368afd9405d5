import Blockchecks.QueueOrder

namespace Blockchecks.GreedyPop

open Runs OrderedDict Heapq HeapOrder ScanWeights StrategyText AdaptiveQueue AdaptiveJobQueue QueueInvariant QueuePop
open QueueRuns QueueOrder

/-- An entry of a pending job that the call may return. -/
structure Eligible (q : AdaptiveJobQueue) (exclude : Finset String) (entry : HeapEntry) (job : AdaptiveJob) : Prop where
  pending : q.pending.get? entry.key = some job
  allowed : job.domain ∉ exclude

/-- Where the loop acts on an entry: a stored priority that is too low is read as it
stands, one that is too high only after the refresh has put it lower. -/
def place (q : AdaptiveJobQueue) (entry : HeapEntry) (job : AdaptiveJob) : ℚ :=
  max entry.negPriority (-q.jobPriority job)

/-- The stored priority is not above the current one. -/
def Standing (q : AdaptiveJobQueue) (entry : HeapEntry) (job : AdaptiveJob) : Prop :=
  -q.jobPriority job ≤ entry.negPriority

/-- The loop acts on the first entry before the second: its place is ahead, or at the same
place it need not be refreshed while the second must be or has a later number. -/
def Overtakes (q : AdaptiveJobQueue) (first : HeapEntry) (firstJob : AdaptiveJob) (second : HeapEntry)
    (secondJob : AdaptiveJob) : Prop :=
  place q first firstJob < place q second secondJob ∨
    place q first firstJob = place q second secondJob ∧ Standing q first firstJob ∧
      (¬Standing q second secondJob ∨ first.seq < second.seq)

/-- An eligible entry that no eligible entry overtakes. -/
structure First (q : AdaptiveJobQueue) (exclude : Finset String) (entry : HeapEntry) (job : AdaptiveJob) : Prop where
  mem : entry ∈ q.heap
  eligible : Eligible q exclude entry job
  ahead : ∀ other ∈ q.heap, ∀ otherJob, Eligible q exclude other otherJob →
    ¬Overtakes q other otherJob entry job

variable {q q' : AdaptiveJobQueue} {exclude : Finset String} {entry : HeapEntry} {job : AdaptiveJob}
variable {heap : List HeapEntry}

theorem place_of_standing (h : Standing q entry job) : place q entry job = entry.negPriority := max_eq_left h

theorem place_of_not_standing (h : ¬Standing q entry job) : place q entry job = -q.jobPriority job :=
  max_eq_right (le_of_not_ge h)

/-- The least entry of the heap is overtaken by nothing unless it must be refreshed. -/
theorem first_of_least (hmem : entry ∈ q.heap) (helig : Eligible q exclude entry job) (hstand : Standing q entry job)
    (hleast : ∀ other ∈ q.heap, other.before entry = false) : First q exclude entry job := by
  refine ⟨hmem, helig, fun other hother otherJob _ hover => ?_⟩
  have hle := not_before_iff.mp (hleast other hother)
  have hplace : other.negPriority ≤ place q other otherJob := le_max_left _ _
  rcases hover with hover | ⟨hsame, hother', hseq⟩
  · rw [place_of_standing hstand] at hover
    rcases hle with hlt | ⟨heq, _⟩
    · exact absurd (hplace.trans_lt hover) (lt_asymm hlt)
    · exact absurd (hplace.trans_lt hover) heq.not_lt
  · rw [place_of_standing hstand, place_of_standing hother'] at hsame
    rcases hle with hlt | ⟨_, hle⟩
    · exact hlt.ne hsame.symm
    · rcases hseq with hseq | hseq
      · exact hseq hstand
      · omega

theorem overtakes_congr {q₁ : AdaptiveJobQueue} (hweights : q₁.weights = q.weights) {first second : HeapEntry}
    {firstJob secondJob : AdaptiveJob} :
    Overtakes q₁ first firstJob second secondJob ↔ Overtakes q first firstJob second secondJob := by
  unfold Overtakes place Standing jobPriority
  rw [hweights]

/-- Entries that are not eligible have no say. -/
theorem first_of_rest {q₁ : AdaptiveJobQueue} (hweights : q₁.weights = q.weights)
    (hback : ∀ e ∈ q₁.heap, ∀ j, Eligible q₁ exclude e j → e ∈ q.heap ∧ Eligible q exclude e j)
    (hforth : ∀ e ∈ q.heap, ∀ j, Eligible q exclude e j → e ∈ q₁.heap ∧ Eligible q₁ exclude e j)
    (h : First q₁ exclude entry job) : First q exclude entry job := by
  obtain ⟨hmem, helig⟩ := hback entry h.mem job h.eligible
  refine ⟨hmem, helig, fun other hother otherJob hothers hover => ?_⟩
  obtain ⟨hother₁, helig₁⟩ := hforth other hother otherJob hothers
  exact h.ahead other hother₁ otherJob helig₁ ((overtakes_congr hweights).mpr hover)

/-- A refreshed entry stands for the stale one: it was the least of the heap, and its new
number is later than all others. -/
theorem first_of_refresh {q₁ : AdaptiveJobQueue} {fresh winner : HeapEntry} {winnerJob : AdaptiveJob}
    (h : First q₁ exclude winner winnerJob) (hperm : q.heap.Perm (entry :: heap))
    (hperm₁ : q₁.heap.Perm (fresh :: heap)) (hweights : q₁.weights = q.weights) (hpending : q₁.pending = q.pending)
    (helig : Eligible q exclude entry job) (hkey : fresh.key = entry.key)
    (hfresh : fresh.negPriority = -q.jobPriority job) (hstale : entry.negPriority ≠ -q.jobPriority job)
    (hseq : ∀ e ∈ q.heap, e.seq < fresh.seq) (hleast : ∀ other ∈ q.heap, other.before entry = false) :
    ∃ w, First q exclude w winnerJob := by
  have hfreshElig : Eligible q₁ exclude fresh job := ⟨by rw [hpending, hkey]; exact helig.pending, helig.allowed⟩
  have hfreshMem : fresh ∈ q₁.heap := hperm₁.symm.subset List.mem_cons_self
  have hstandFresh : Standing q fresh job := hfresh.ge
  have hplaceFresh : place q fresh job = -q.jobPriority job := (place_of_standing hstandFresh).trans hfresh
  have hrest {e : HeapEntry} (he : e ∈ heap) : e ∈ q.heap ∧ e ∈ q₁.heap :=
    ⟨hperm.symm.subset (List.mem_cons_of_mem _ he), hperm₁.symm.subset (List.mem_cons_of_mem _ he)⟩
  have helig₁ {e : HeapEntry} {j : AdaptiveJob} : Eligible q exclude e j ↔ Eligible q₁ exclude e j :=
    ⟨fun h => ⟨hpending ▸ h.pending, h.allowed⟩, fun h => ⟨hpending ▸ h.pending, h.allowed⟩⟩
  have hlost {e : HeapEntry} {j : AdaptiveJob} (he : e ∈ q₁.heap) (hej : Eligible q exclude e j) :
      ¬Overtakes q e j winner winnerJob := fun hover =>
    h.ahead e he j (helig₁.mp hej) ((overtakes_congr hweights).mpr hover)
  have hwinner := List.mem_cons.mp (hperm₁.subset h.mem)
  by_cases hstand : Standing q entry job
  · -- a raised priority goes to the top of the heap at once
    have hup : -q.jobPriority job < entry.negPriority := lt_of_le_of_ne hstand (Ne.symm hstale)
    refine ⟨entry, ?_⟩
    rcases hwinner with rfl | hin
    · obtain rfl := Option.some.inj (h.eligible.pending.symm.trans hfreshElig.pending)
      exact first_of_least (hperm.symm.subset List.mem_cons_self) helig hstand hleast
    · refine absurd ?_ (hlost hfreshMem (helig₁.mpr hfreshElig))
      have hle : entry.negPriority ≤ winner.negPriority := by
        rcases not_before_iff.mp (hleast winner (hrest hin).1) with hlt | ⟨heq, _⟩
        · exact hlt.le
        · exact heq.ge
      exact Or.inl (hplaceFresh ▸ hup.trans_le (hle.trans (le_max_left _ _)))
  · have hplace : place q entry job = place q fresh job := (place_of_not_standing hstand).trans hplaceFresh.symm
    rcases hwinner with rfl | hin
    · obtain rfl := Option.some.inj (h.eligible.pending.symm.trans hfreshElig.pending)
      refine ⟨entry, hperm.symm.subset List.mem_cons_self, helig, fun other hother otherJob hothers hover => ?_⟩
      rcases List.mem_cons.mp (hperm.subset hother) with rfl | hin
      · obtain rfl := Option.some.inj (hothers.pending.symm.trans helig.pending)
        rcases hover with hlt | ⟨_, hself, _⟩
        · exact lt_irrefl _ hlt
        · exact hstand hself
      · refine hlost (hrest hin).2 hothers ?_
        rcases hover with hlt | ⟨hsame, hself, _⟩
        · exact Or.inl (hplace ▸ hlt)
        · exact Or.inr ⟨hsame.trans hplace, hself, Or.inr (hseq other hother)⟩
    · refine ⟨winner, (hrest hin).1, helig₁.mpr h.eligible, fun other hother otherJob hothers hover => ?_⟩
      rcases List.mem_cons.mp (hperm.subset hother) with rfl | hin
      · obtain rfl := Option.some.inj (hothers.pending.symm.trans helig.pending)
        rcases hover with hlt | ⟨_, hself, _⟩
        · exact hlost hfreshMem (helig₁.mpr hfreshElig) (Or.inl (hplace ▸ hlt))
        · exact hstand hself
      · exact hlost (hrest hin).2 hothers hover

/-- The heap loop returns the job of the first eligible entry, whatever is stale. -/
theorem popHeap_first (fuel : Nat) {skipped : List HeapEntry} {r : Option AdaptiveJob}
    (hkeyed : ∀ k j, q.pending.get? k = some j → j.key = k) (ho : OrderedWith q skipped)
    (hex : q.excludedDomains ⊆ exclude) (hrun : popHeap exclude fuel q skipped = some (r, q'))
    (hwork : ∃ e ∈ q.heap, ∃ j, Eligible q exclude e j) : ∃ w j, First q exclude w j ∧ r = some j := by
  induction fuel generalizing q skipped with
  | zero => exact absurd hrun (Option.some_ne_none _).symm
  | succ fuel ih =>
      rw [popHeap] at hrun
      cases hpop : heappop HeapEntry.before q.heap with
      | none =>
          obtain ⟨e, he, _⟩ := hwork
          rw [(heappop_eq_none_iff HeapEntry.before _).mp hpop] at he
          exact absurd he List.not_mem_nil
      | some p =>
          obtain ⟨entry, heap⟩ := p
          rw [hpop] at hrun
          have hperm := heappop_perm HeapEntry.before hpop
          obtain ⟨hheap, hleast⟩ := heappop_heap before_weakOrder ho.heap hpop
          have hmem : entry ∈ q.heap := hperm.symm.subset List.mem_cons_self
          have hrest : OrderedWith { q with heap := heap } skipped := by
            refine ho.move hheap (List.Perm.refl _) ((List.sublist_cons_self entry _).subperm.trans ?_)
            exact (List.perm_middle.symm.trans (hperm.symm.append_left skipped)).subperm
          have haside : OrderedWith { q with heap := heap } (skipped ++ [entry]) := by
            refine ho.move hheap ?_ (hperm.symm.append_left skipped).subperm
            rw [List.append_assoc]
            exact List.Perm.refl _
          -- the loop goes on after an entry that is not eligible
          have goOn {q₁ : AdaptiveJobQueue} {skipped₁ : List HeapEntry}
              (hrun₁ : popHeap exclude fuel q₁ skipped₁ = some (r, q')) (hnot : ∀ j, ¬Eligible q exclude entry j)
              (hweights : q₁.weights = q.weights) (hexcluded : q₁.excludedDomains = q.excludedDomains)
              (hsub : ∀ k j, q₁.pending.get? k = some j → q.pending.get? k = some j)
              (hback : ∀ e ∈ q₁.heap, ∀ j, Eligible q₁ exclude e j → e ∈ heap)
              (hforth : ∀ e ∈ heap, ∀ j, Eligible q exclude e j → e ∈ q₁.heap ∧ Eligible q₁ exclude e j)
              (ho₁ : OrderedWith q₁ skipped₁) :
              ∃ w j, First q exclude w j ∧ r = some j := by
            have hforth' : ∀ e ∈ q.heap, ∀ j, Eligible q exclude e j → e ∈ q₁.heap ∧ Eligible q₁ exclude e j := by
              intro e he j hej
              rcases List.mem_cons.mp (hperm.subset he) with rfl | he
              · exact absurd hej (hnot j)
              · exact hforth e he j hej
            obtain ⟨e, he, j, hej⟩ := hwork
            obtain ⟨he₁, hej₁⟩ := hforth' e he j hej
            obtain ⟨w, wj, hfirst, hr⟩ := ih (fun k j hj => hkeyed k j (hsub k j hj)) ho₁ (hexcluded ▸ hex) hrun₁
              ⟨e, he₁, j, hej₁⟩
            refine ⟨w, wj, first_of_rest hweights (fun e he j hej => ⟨?_, hsub _ _ hej.pending, hej.allowed⟩)
              hforth' hfirst, hr⟩
            exact hperm.symm.subset (List.mem_cons_of_mem _ (hback e he j hej))
          dsimp only at hrun
          split at hrun
          next hget =>
            refine goOn hrun (fun j hj => ?_) rfl rfl (fun _ _ h => h) (fun e he _ _ => he)
              (fun e he _ h => ⟨he, h.pending, h.allowed⟩) hrest
            exact absurd (hget.symm.trans hj.pending) (Option.some_ne_none j).symm
          next job hget =>
            have hkey : job.key = entry.key := hkeyed _ _ hget
            have hownJob {j : AdaptiveJob} (hj : Eligible q exclude entry j) : j = job :=
              Option.some.inj (hj.pending.symm.trans hget)
            split at hrun
            next hstale =>
              have hpush := heappush_perm HeapEntry.before heap ⟨-q.jobPriority job, q.seq + 1, job.key⟩
              have hordered := pushHeap_ordered hrest job.key (q.jobPriority job)
              by_cases hd : job.domain ∈ exclude
              · refine goOn hrun (fun j hj => hj.allowed (hownJob hj ▸ hd)) rfl rfl (fun _ _ h => h)
                  (fun e he j hej => ?_)
                  (fun e he _ h => ⟨hpush.symm.subset (List.mem_cons_of_mem _ he), h.pending, h.allowed⟩) hordered
                rcases List.mem_cons.mp (hpush.subset he) with rfl | he
                · refine absurd hd ?_
                  have hsame : q.pending.get? job.key = some j := hej.pending
                  obtain rfl := Option.some.inj ((hkey ▸ hget).symm.trans hsame)
                  exact hej.allowed
                · exact he
              · have hfresh : Eligible (AdaptiveJobQueue.refreshStaleEntry { q with heap := heap } job) exclude
                    ⟨-q.jobPriority job, q.seq + 1, job.key⟩ job := ⟨hkey ▸ hget, hd⟩
                have hkeyed₁ : ∀ k j, (AdaptiveJobQueue.refreshStaleEntry { q with heap := heap } job).pending.get? k =
                    some j → j.key = k := hkeyed
                obtain ⟨w, wj, hfirst, hr⟩ := ih hkeyed₁ hordered hex hrun
                  ⟨_, hpush.symm.subset List.mem_cons_self, job, hfresh⟩
                obtain ⟨w', hfirst'⟩ := first_of_refresh hfirst hperm hpush rfl rfl ⟨hget, hd⟩ hkey rfl
                  (of_decide_eq_true hstale)
                  (fun e he => Nat.lt_succ_of_le (ho.bound e (List.mem_append_right _ he))) hleast
                exact ⟨w', wj, hfirst', hr⟩
            next hfresh =>
              have hstand : Standing q entry job := by
                have heq : ¬entry.negPriority ≠ -q.jobPriority job := fun hne => hfresh (decide_eq_true hne)
                exact (not_not.mp heq).ge
              split at hrun
              next hd =>
                have hnot : ∀ j, ¬Eligible q exclude entry j := fun j hj => hj.allowed (hownJob hj ▸ hex hd)
                obtain ⟨hheapSame, _, hexcluded, hweights, _, _⟩ :=
                  dropPending_frame (AdaptiveJobQueue.addDone { q with heap := heap } job.key) job.key
                have hsame := List.Perm.of_eq hheapSame
                have hadd : OrderedWith (AdaptiveJobQueue.addDone { q with heap := heap } job.key) skipped :=
                  hrest.congr rfl rfl rfl
                refine goOn hrun hnot hweights hexcluded (fun k j hk => ?_) (fun e he _ _ => hsame.mem_iff.mp he)
                  (fun e he j hej => ⟨hsame.mem_iff.mpr he, ?_, hej.allowed⟩) (dropPending_ordered hadd job.key)
                · rw [get?_dropPending] at hk
                  split at hk
                  · exact absurd hk (Option.some_ne_none j).symm
                  · exact hk
                · rw [get?_dropPending, if_neg]
                  · exact hej.pending
                  · intro hk
                    have hsameJob := hej.pending
                    rw [hk, hkey, hget] at hsameJob
                    exact hej.allowed (Option.some.inj hsameJob ▸ hex hd)
              next hd =>
                split at hrun
                next hsoft =>
                  exact goOn hrun (fun j hj => hj.allowed (hownJob hj ▸ hsoft)) rfl rfl (fun _ _ h => h)
                    (fun e he _ _ => he) (fun e he _ h => ⟨he, h.pending, h.allowed⟩) haside
                next hsoft =>
                  obtain ⟨rfl, _⟩ := Prod.mk.inj (Option.some.inj hrun)
                  exact ⟨entry, job, first_of_least hmem ⟨hget, hsoft⟩ hstand hleast, rfl⟩

/-- A pending job outside the exclusions whose current priority no other such job exceeds. -/
structure Highest (q : AdaptiveJobQueue) (exclude : Finset String) (job : AdaptiveJob) : Prop where
  pending : ∃ k, q.pending.get? k = some job
  allowed : job.domain ∉ exclude
  most : ∀ k other, q.pending.get? k = some other → other.domain ∉ exclude → q.jobPriority other ≤ q.jobPriority job

/-- Some job of the highest priority has an entry that no job of lower priority overtakes. -/
def Undisturbed (q : AdaptiveJobQueue) (exclude : Finset String) : Prop :=
  ∃ entry ∈ q.heap, ∃ job, Eligible q exclude entry job ∧ Highest q exclude job ∧
    ∀ other ∈ q.heap, ∀ otherJob, Eligible q exclude other otherJob →
      q.jobPriority otherJob < q.jobPriority job → ¬Overtakes q other otherJob entry job

theorem pop_first (hv : Valid q) (ho : Ordered q) (excludeDomains : Finset String) (rng : Rng)
    (hwork : ∃ k job, q.pending.get? k = some job ∧ job.domain ∉ excludeDomains ∪ q.excludedDomains) :
    ∃ w job q', q.pop excludeDomains rng = some (some job, q') ∧
      First q (excludeDomains ∪ q.excludedDomains) w job := by
  obtain ⟨k, job, hget, hallowed⟩ := hwork
  obtain ⟨r, q', hpop, _, _⟩ := pop_spec hv excludeDomains rng
  have hkey : k ∈ q.pending.keys := (Dict.mem_keys_iff _ _).mpr ⟨job, hget⟩
  obtain ⟨e, he, hek⟩ := hv.heap hkey
  have hrun := hpop
  have hsize : q.pending.size ≠ 0 := by
    have hmem := (Dict.get?_eq_some_iff _ _ _).mp hget
    exact (List.length_pos_of_mem hmem).ne'
  have hdraw : ¬(0 < q.epsilon ∧ rng.random < q.epsilon ∧ 1 < q.pending.size) := fun h =>
    absurd (ho.greedy ▸ h.1) (lt_irrefl 0)
  rw [pop, if_neg hsize] at hrun
  dsimp only at hrun
  rw [if_neg hdraw] at hrun
  obtain ⟨w, j, hfirst, rfl⟩ := popHeap_first _ hv.keyed ho Finset.subset_union_right hrun
    ⟨e, he, job, by rw [hek]; exact hget, hallowed⟩
  exact ⟨w, j, q', hpop, hfirst⟩

/-- Two different entries are never level, unless both must be refreshed to one priority. -/
theorem overtakes_or (ho : Ordered q) {e e' : HeapEntry} {job job' : AdaptiveJob} (he : e ∈ q.heap) (he' : e' ∈ q.heap)
    (hne : e ≠ e') (hpriority : q.jobPriority job ≠ q.jobPriority job') :
    Overtakes q e job e' job' ∨ Overtakes q e' job' e job := by
  rcases lt_trichotomy (place q e job) (place q e' job') with hlt | heq | hgt
  · exact Or.inl (Or.inl hlt)
  · by_cases hs : Standing q e job <;> by_cases hs' : Standing q e' job'
    · have hseq : e.seq ≠ e'.seq := fun hseq => hne (List.inj_on_of_nodup_map ho.seqs he he' hseq)
      rcases Nat.lt_or_gt_of_ne hseq with hlt | hgt
      · exact Or.inl (Or.inr ⟨heq, hs, Or.inr hlt⟩)
      · exact Or.inr (Or.inr ⟨heq.symm, hs', Or.inr hgt⟩)
    · exact Or.inl (Or.inr ⟨heq, hs, Or.inl hs'⟩)
    · exact Or.inr (Or.inr ⟨heq.symm, hs', Or.inl hs⟩)
    · rw [place_of_not_standing hs, place_of_not_standing hs'] at heq
      exact absurd (neg_injective heq) hpriority
  · exact Or.inr (Or.inl hgt)

/-- Two workers: fake passes on a while b is busy, and the next pop still hands out split on
b, whose entry is the older one of the same stored priority. -/
def fakePassed : List Op :=
  [.pop ∅ .least, .pop {"b.example"} .least, .markDone (.fromItem fakeItem "a.example") true]

end Blockchecks.GreedyPop
