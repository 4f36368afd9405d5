import Blockchecks.HeapOrder
import Blockchecks.QueueRuns

namespace Blockchecks.QueueOrder

open OrderedDict Heapq HeapOrder ScanWeights StrategyText AdaptiveQueue AdaptiveJobQueue QueueInvariant QueueRuns

theorem before_iff {a b : HeapEntry} : a.before b = true ↔
    a.negPriority < b.negPriority ∨ a.negPriority = b.negPriority ∧ a.seq < b.seq := decide_eq_true_iff

theorem not_before_iff {a b : HeapEntry} : a.before b = false ↔
    b.negPriority < a.negPriority ∨ a.negPriority = b.negPriority ∧ b.seq ≤ a.seq := by
  rw [← Bool.not_eq_true, before_iff]
  constructor
  · intro h
    rcases lt_trichotomy a.negPriority b.negPriority with hlt | heq | hgt
    · exact absurd (Or.inl hlt) h
    · exact Or.inr ⟨heq, Nat.le_of_not_lt fun hseq => h (Or.inr ⟨heq, hseq⟩)⟩
    · exact Or.inl hgt
  · rintro (hlt | ⟨heq, hseq⟩) (hlt' | ⟨heq', hseq'⟩)
    · exact lt_asymm hlt hlt'
    · exact hlt.ne heq'.symm
    · exact hlt'.ne heq
    · omega

theorem before_weakOrder : WeakOrder HeapEntry.before where
  asymm := by
    intro a b h
    rw [not_before_iff]
    rcases before_iff.mp h with hlt | ⟨heq, hseq⟩
    · exact Or.inl hlt
    · exact Or.inr ⟨heq.symm, hseq.le⟩
  trans := by
    intro a b c hab hbc
    rw [not_before_iff] at hab hbc ⊢
    rcases hab with hab | ⟨hab, hseq⟩ <;> rcases hbc with hbc | ⟨hbc, hseq'⟩
    · exact Or.inl (hab.trans hbc)
    · exact Or.inl (hbc ▸ hab)
    · exact Or.inl (hab ▸ hbc)
    · exact Or.inr ⟨hbc.trans hab, hseq.trans hseq'⟩

/-- The order invariant while some entries are held aside: the list is a heap, no two
entries share a sequence number, none is ahead of the counter, and no draw is random. -/
structure OrderedWith (q : AdaptiveJobQueue) (aside : List HeapEntry) : Prop where
  heap : HeapFrom HeapEntry.before 0 q.heap
  seqs : ((aside ++ q.heap).map HeapEntry.seq).Nodup
  bound : ∀ e ∈ aside ++ q.heap, e.seq ≤ q.seq
  greedy : q.epsilon = 0

abbrev Ordered (q : AdaptiveJobQueue) : Prop := OrderedWith q []

variable {q q' : AdaptiveJobQueue} {aside aside' : List HeapEntry}

theorem OrderedWith.congr (h : OrderedWith q aside) (hheap : q'.heap = q.heap) (hseq : q'.seq = q.seq)
    (heps : q'.epsilon = q.epsilon) : OrderedWith q' aside where
  heap := hheap ▸ h.heap
  seqs := hheap ▸ h.seqs
  bound := by
    rw [hheap, hseq]
    exact h.bound
  greedy := heps.trans h.greedy

/-- The entries may be moved between the heap and the side, and some may be left out. -/
theorem OrderedWith.move (h : OrderedWith q aside) {heap : List HeapEntry}
    (hheap : HeapFrom HeapEntry.before 0 heap) {all : List HeapEntry} (hperm : (aside' ++ heap).Perm all)
    (hsub : all.Subperm (aside ++ q.heap)) : OrderedWith { q with heap := heap } aside' where
  heap := hheap
  seqs := by
    obtain ⟨kept, hkept, hsublist⟩ := hsub
    refine ((hperm.trans hkept.symm).map HeapEntry.seq).nodup_iff.mpr ?_
    exact h.seqs.sublist (hsublist.map HeapEntry.seq)
  bound e he := h.bound e (hsub.subset (hperm.subset he))
  greedy := h.greedy

theorem pushHeap_ordered (h : OrderedWith q aside) (key : Key) (priority : ℚ) :
    OrderedWith (q.pushHeap key priority) aside := by
  have hperm : (aside ++ (q.pushHeap key priority).heap).Perm (⟨-priority, q.seq + 1, key⟩ :: (aside ++ q.heap)) :=
    ((heappush_perm HeapEntry.before q.heap _).append_left aside).trans List.perm_middle
  refine ⟨heappush_heap before_weakOrder h.heap _, ?_, fun e he => ?_, h.greedy⟩
  · rw [(hperm.map HeapEntry.seq).nodup_iff, List.map_cons, List.nodup_cons]
    refine ⟨fun hm => ?_, h.seqs⟩
    obtain ⟨e, he, hseq⟩ := List.mem_map.mp hm
    have hbound := h.bound e he
    dsimp only at hseq
    omega
  · rcases List.mem_cons.mp (hperm.subset he) with rfl | he
    · exact Nat.le_refl _
    · exact (h.bound e he).trans (Nat.le_succ q.seq)

theorem rebuildHeap_ordered (heps : q.epsilon = 0) : Ordered q.rebuildHeap := by
  have hperm := heapify_perm HeapEntry.before (q.pending.entries.zipIdx.map
    (fun e => (⟨-q.jobPriority e.1.2, q.seq + e.2, e.1.1⟩ : HeapEntry)))
  refine ⟨heapify_heap before_weakOrder _, ?_, fun e he => ?_, heps⟩
  · rw [List.nil_append, rebuildHeap, (hperm.map HeapEntry.seq).nodup_iff, List.map_map]
    have hseqs : q.pending.entries.zipIdx.map (HeapEntry.seq ∘ fun e => ⟨-q.jobPriority e.1.2, q.seq + e.2, e.1.1⟩) =
        (List.range' 0 q.pending.entries.length).map (q.seq + ·) := by
      rw [← List.zipIdx_map_snd, List.map_map]
      rfl
    rw [hseqs]
    exact List.Nodup.map (fun i j hij => Nat.add_left_cancel hij) List.nodup_range'
  · rw [List.nil_append, rebuildHeap] at he
    obtain ⟨⟨entry, i⟩, hm, rfl⟩ := List.mem_map.mp (hperm.subset he)
    have hi := (List.mem_zipIdx' hm).1
    rw [rebuildHeap, Dict.size]
    dsimp only
    omega

theorem maybeCompactHeap_ordered (h : Ordered q) : Ordered q.maybeCompactHeap := by
  rw [maybeCompactHeap]
  split
  · exact rebuildHeap_ordered h.greedy
  · exact h

theorem maybeRebuildHeap_ordered (h : Ordered q) : Ordered q.maybeRebuildHeap := by
  rw [maybeRebuildHeap]
  split
  · exact h
  · dsimp only
    split
    · exact (rebuildHeap_ordered h.greedy).congr rfl rfl rfl
    · exact h.congr rfl rfl rfl

theorem dropPending_ordered (h : OrderedWith q aside) (key : Key) : OrderedWith (q.dropPending key).2 aside := by
  rw [dropPending]
  split
  · exact h.congr rfl rfl rfl
  · exact h

theorem enqueue_ordered (h : Ordered q) (job : AdaptiveJob) : Ordered (q.enqueue job).2 := by
  rw [enqueue]
  split
  · exact h
  · refine (pushHeap_ordered ?_ job.key (q.jobPriority job)).congr rfl rfl rfl
    exact h.congr rfl rfl rfl

theorem enqueueMany_ordered (h : Ordered q) (jobs : List AdaptiveJob) : Ordered (q.enqueueMany jobs) := by
  rw [enqueueMany]
  induction jobs generalizing q with
  | nil => exact h
  | cons job jobs ih => exact ih (enqueue_ordered h job)

theorem build_ordered (items : List StrategyItem) (domains : List String) (weights : Weights)
    (skipDomains : Finset String) (skipKeys : Finset Key) :
    Ordered (build items domains weights 0 skipDomains skipKeys) := by
  rw [build]
  refine OrderedWith.congr (enqueueMany_ordered ?_ _) rfl rfl rfl
  refine ⟨fun p c _ _ => inOrder_of_end (Nat.zero_le c), List.nodup_nil, fun e he => absurd he List.not_mem_nil, ?_⟩
  have hclamp : max 0 (min 1 (0 : ℚ)) = 0 := by decide +kernel
  exact hclamp

theorem fanoutTo_ordered {acc : Nat × AdaptiveJobQueue} (h : Ordered acc.2) (item : StrategyItem) (dom : String) :
    Ordered (fanoutTo item acc dom).2 := by
  rw [fanoutTo]
  split
  · exact h
  · have he := enqueue_ordered h (.fromItem item dom true)
    split
    next hq => rw [hq] at he; exact he
    next hq => rw [hq] at he; exact he

theorem fanout_fold_ordered (acc : Nat × AdaptiveJobQueue) (h : Ordered acc.2) (item : StrategyItem)
    (doms : List String) : Ordered (doms.foldl (fanoutTo item) acc).2 := by
  induction doms generalizing acc with
  | nil => exact h
  | cons dom doms ih => exact ih _ (fanoutTo_ordered h item dom)

theorem fanoutOnPass_ordered (h : Ordered q) (job : AdaptiveJob) : Ordered (q.fanoutOnPass job).2 := by
  have hindex : Ordered q.clusterIndexForFanout := by
    rw [clusterIndexForFanout]
    split
    · exact h.congr rfl rfl rfl
    · exact h
  rw [fanoutOnPass]
  split
  · exact h
  · exact OrderedWith.congr (fanout_fold_ordered (0, _) hindex job.item _) rfl rfl rfl

theorem markDone_ordered (h : Ordered q) (job : AdaptiveJob) (passed : Bool) : Ordered (q.markDone job passed).2 := by
  have hadd : Ordered (q.addDone job.key) := h.congr rfl rfl rfl
  have hclose : Ordered (q.closeJob job passed) := (dropPending_ordered hadd job.key).congr rfl rfl rfl
  cases passed with
  | false => exact maybeCompactHeap_ordered hclose
  | true =>
      have hboost : Ordered ((q.closeJob job true).boostGenetics job) := hclose.congr rfl rfl rfl
      exact fanoutOnPass_ordered (maybeCompactHeap_ordered (maybeRebuildHeap_ordered hboost)) job

theorem filterResume_ordered (h : Ordered q) (check : AdaptiveJob → Bool) : Ordered (q.filterResume check).2 := by
  have hfold (flags : List (Key × Bool)) (acc : Nat × AdaptiveJobQueue) (ha : Ordered acc.2) :
      Ordered (flags.foldl resumeKey acc).2 := by
    induction flags generalizing acc with
    | nil => exact ha
    | cons flag flags ih =>
        refine ih _ ?_
        rw [resumeKey]
        split
        · have hadd : Ordered (acc.2.addDone flag.1) := ha.congr rfl rfl rfl
          exact dropPending_ordered hadd flag.1
        · exact ha
  rw [filterResume]
  dsimp only
  split
  · exact hfold _ (0, q) h
  · exact maybeCompactHeap_ordered (hfold _ (0, q) h)

theorem batchLoop_ordered (first : AdaptiveJob) (maxSize : Nat) (protocol : String) (disableEch : Bool)
    (h : Ordered q) (batch : List AdaptiveJob) (doms : List String) :
    Ordered (batchLoop first maxSize protocol disableEch q batch doms).2 := by
  induction doms generalizing q batch with
  | nil => exact h
  | cons dom doms ih =>
      rw [batchLoop]
      split
      · exact h
      · split
        · exact ih h batch
        · split
          · exact ih h batch
          · have hd := dropPending_ordered h (first.item.label, dom)
            split
            next hq => rw [hq] at hd; exact ih hd _
            next hq => rw [hq] at hd; exact ih hd _

theorem popSkipped_ordered (fuel : Nat) {skipped : List HeapEntry} (h : OrderedWith q skipped) :
    Ordered (q.popSkipped fuel skipped).2 := by
  induction fuel generalizing q skipped with
  | zero => exact h.move h.heap (List.Perm.refl _) (List.sublist_append_right _ _).subperm
  | succ fuel ih =>
      rw [popSkipped]
      cases hpop : heappop HeapEntry.before skipped with
      | none => exact h.move h.heap (List.Perm.refl _) (List.sublist_append_right _ _).subperm
      | some p =>
          obtain ⟨entry, rest⟩ := p
          have hperm := heappop_perm HeapEntry.before hpop
          have hsub : (rest ++ q.heap).Subperm (skipped ++ q.heap) :=
            (List.sublist_cons_self entry (rest ++ q.heap)).subperm.trans (hperm.symm.append_right q.heap).subperm
          have hrest : OrderedWith q rest := h.move h.heap (List.Perm.refl _) hsub
          have hdrop := dropPending_ordered hrest entry.key
          dsimp only
          split
          next job q₁ hq =>
            rw [hq] at hdrop
            exact hdrop.move (heappushAll_heap before_weakOrder hdrop.heap rest)
              (heappushAll_perm HeapEntry.before q₁.heap rest) (List.Subperm.refl _)
          next q₁ hq =>
            rw [hq] at hdrop
            exact ih hdrop

theorem popHeap_ordered {exclude : Finset String} (fuel : Nat) {skipped : List HeapEntry} {r : Option AdaptiveJob}
    (h : OrderedWith q skipped) (hrun : popHeap exclude fuel q skipped = some (r, q')) : Ordered q' := by
  induction fuel generalizing q skipped with
  | zero => exact absurd hrun (Option.some_ne_none _).symm
  | succ fuel ih =>
      rw [popHeap] at hrun
      cases hpop : heappop HeapEntry.before q.heap with
      | none =>
          rw [hpop] at hrun
          have hlast := popSkipped_ordered skipped.length h
          rw [Option.some.inj hrun] at hlast
          exact hlast
      | some p =>
          obtain ⟨entry, heap⟩ := p
          rw [hpop] at hrun
          have hperm := heappop_perm HeapEntry.before hpop
          have hheap := (heappop_heap before_weakOrder h.heap hpop).1
          have hfull : (skipped ++ (entry :: heap)).Subperm (skipped ++ q.heap) :=
            (hperm.symm.append_left skipped).subperm
          have hmiddle : (entry :: (skipped ++ heap)).Perm (skipped ++ (entry :: heap)) := List.perm_middle.symm
          have hrest : OrderedWith { q with heap := heap } skipped := h.move hheap (List.Perm.refl _)
            (((List.sublist_cons_self entry _).subperm.trans hmiddle.subperm).trans hfull)
          have haside : OrderedWith { q with heap := heap } (skipped ++ [entry]) := by
            refine h.move hheap ?_ hfull
            rw [List.append_assoc]
            exact List.Perm.refl _
          dsimp only at hrun
          split at hrun
          · exact ih hrest hrun
          next job hget =>
            split at hrun
            · exact ih (pushHeap_ordered hrest _ _) hrun
            · split at hrun
              · have hadd : OrderedWith (AdaptiveJobQueue.addDone { q with heap := heap } job.key) skipped :=
                  hrest.congr rfl rfl rfl
                exact ih (dropPending_ordered hadd job.key) hrun
              · split at hrun
                · exact ih haside hrun
                · obtain ⟨_, rfl⟩ := Prod.mk.inj (Option.some.inj hrun)
                  have hdrop := dropPending_ordered hrest job.key
                  exact hdrop.move (heappushAll_heap before_weakOrder hdrop.heap skipped)
                    (heappushAll_perm HeapEntry.before _ skipped) (List.Subperm.refl _)

theorem pop_ordered (h : Ordered q) {excludeDomains : Finset String} {rng : Rng} {r : Option AdaptiveJob}
    (hpop : q.pop excludeDomains rng = some (r, q')) : Ordered q' := by
  rw [pop] at hpop
  split at hpop
  · obtain ⟨_, rfl⟩ := Prod.mk.inj (Option.some.inj hpop)
    exact h
  · dsimp only at hpop
    split at hpop
    next hdraw =>
      rw [h.greedy] at hdraw
      exact absurd hdraw.1 (lt_irrefl 0)
    · exact popHeap_ordered _ h hpop

theorem popBatch_ordered (h : Ordered q) {maxSize : Nat} {protocol : String} {disableEch : Bool} {rng : Rng}
    {order : List Key} {batch : List AdaptiveJob}
    (hpop : q.popBatch maxSize protocol disableEch rng order = some (batch, q')) : Ordered q' := by
  rw [popBatch] at hpop
  obtain ⟨⟨first, q₁⟩, hfirst, hpop⟩ := Option.bind_eq_some_iff.mp hpop
  have h₁ := pop_ordered h hfirst
  cases first with
  | none =>
      obtain ⟨_, rfl⟩ := Prod.mk.inj (Option.some.inj hpop)
      exact h₁
  | some first =>
      dsimp only at hpop
      split at hpop
      · obtain ⟨_, rfl⟩ := Prod.mk.inj (Option.some.inj hpop)
        exact h₁
      · split at hpop
        · obtain ⟨_, rfl⟩ := Prod.mk.inj (Option.some.inj hpop)
          exact h₁
        · obtain ⟨_, rfl⟩ := Prod.mk.inj (Option.some.inj hpop)
          exact maybeCompactHeap_ordered (batchLoop_ordered first maxSize protocol disableEch h₁ _ _)

theorem call_ordered (op : Op) (h : Ordered q) (hcall : call q op = some q') : Ordered q' := by
  cases op with
  | enqueue job => exact Option.some.inj hcall ▸ enqueue_ordered h job
  | pop excludeDomains rng =>
      obtain ⟨⟨r, q₁⟩, hpop, rfl⟩ := Option.map_eq_some_iff.mp hcall
      exact pop_ordered h hpop
  | popBatch maxSize protocol disableEch rng order =>
      obtain ⟨⟨batch, q₁⟩, hpop, rfl⟩ := Option.map_eq_some_iff.mp hcall
      exact popBatch_ordered h hpop
  | markDone job passed => exact Option.some.inj hcall ▸ markDone_ordered h job passed
  | fanoutOnPass job => exact Option.some.inj hcall ▸ fanoutOnPass_ordered h job
  | filterResume check => exact Option.some.inj hcall ▸ filterResume_ordered h check
  | configureHeapRebuild every => exact Option.some.inj hcall ▸ h.congr rfl rfl rfl
  | excludeDomain domain => exact Option.some.inj hcall ▸ h.congr rfl rfl rfl

end Blockchecks.QueueOrder
