import Blockchecks.AdaptiveQueue

namespace Blockchecks.QueueInvariant

open OrderedDict Heapq ScanWeights StrategyText AdaptiveQueue AdaptiveJobQueue

/-- The representation invariant while some heap entries are held aside. Every
pending key is filed under its own key, is not done, has an entry in the heap
or among those held aside, and is listed under its label. -/
structure ValidWith (q : AdaptiveJobQueue) (aside : List HeapEntry) : Prop where
  keyed : ∀ k job, q.pending.get? k = some job → job.key = k
  disjoint : ∀ k ∈ q.pending.keys, k ∉ q.done
  heaped : ∀ k ∈ q.pending.keys, ∃ e ∈ aside ++ q.heap, e.key = k
  labelled : ∀ k ∈ q.pending.keys, k ∈ q.byLabel k.1

abbrev Valid (q : AdaptiveJobQueue) : Prop := ValidWith q []

theorem Valid.heap {q : AdaptiveJobQueue} (h : Valid q) {k : Key} (hk : k ∈ q.pending.keys) :
    ∃ e ∈ q.heap, e.key = k := h.heaped k hk

theorem ValidWith.reheap {q q' : AdaptiveJobQueue} {aside aside' : List HeapEntry}
    (h : ValidWith q aside) (hp : q'.pending = q.pending) (hd : q'.done = q.done)
    (hl : q'.byLabel = q.byLabel)
    (hh : ∀ e ∈ aside ++ q.heap, ∃ e' ∈ aside' ++ q'.heap, e'.key = e.key) :
    ValidWith q' aside' where
  keyed := by rw [hp]; exact h.keyed
  disjoint := by rw [hp, hd]; exact h.disjoint
  heaped := by
    rw [hp]
    intro k hk
    obtain ⟨e, he, hek⟩ := h.heaped k hk
    obtain ⟨e', he', hke⟩ := hh e he
    exact ⟨e', he', hke.trans hek⟩
  labelled := by rw [hp, hl]; exact h.labelled

theorem ValidWith.congr {q q' : AdaptiveJobQueue} {aside : List HeapEntry} (h : ValidWith q aside)
    (hp : q'.pending = q.pending) (hd : q'.done = q.done) (hl : q'.byLabel = q.byLabel)
    (hh : q'.heap = q.heap) : ValidWith q' aside :=
  h.reheap hp hd hl (fun e he => ⟨e, by rw [hh]; exact he, rfl⟩)

theorem dropPending_fst (q : AdaptiveJobQueue) (key : Key) :
    (q.dropPending key).1 = q.pending.get? key := by
  rw [dropPending]
  cases q.pending.get? key <;> rfl

theorem get?_dropPending (q : AdaptiveJobQueue) (key k : Key) :
    (q.dropPending key).2.pending.get? k = if k = key then none else q.pending.get? k := by
  rw [dropPending]
  cases h : q.pending.get? key with
  | none => by_cases hk : k = key <;> simp [hk, h]
  | some job => simp [Dict.get?_erase]

theorem mem_keys_dropPending (q : AdaptiveJobQueue) (key k : Key) :
    k ∈ (q.dropPending key).2.pending.keys ↔ k ∈ q.pending.keys ∧ k ≠ key := by
  rw [Dict.mem_keys_iff, Dict.mem_keys_iff, get?_dropPending]
  by_cases hk : k = key <;> simp [hk]

theorem dropPending_frame (q : AdaptiveJobQueue) (key : Key) :
    (q.dropPending key).2.heap = q.heap ∧ (q.dropPending key).2.done = q.done ∧
      (q.dropPending key).2.excludedDomains = q.excludedDomains ∧
      (q.dropPending key).2.weights = q.weights ∧
      (q.dropPending key).2.allDomains = q.allDomains ∧
      (q.dropPending key).2.clusterIndex = q.clusterIndex := by
  rw [dropPending]
  cases q.pending.get? key <;> exact ⟨rfl, rfl, rfl, rfl, rfl, rfl⟩

theorem mem_byLabel_dropPending (q : AdaptiveJobQueue) (key k : Key) (label : String)
    (hne : k ≠ key) (hk : k ∈ q.byLabel label) : k ∈ (q.dropPending key).2.byLabel label := by
  rw [dropPending]
  cases q.pending.get? key with
  | none => exact hk
  | some job =>
      dsimp only
      split
      · exact Finset.mem_erase.mpr ⟨hne, hk⟩
      · exact hk

theorem dropPending_valid {q : AdaptiveJobQueue} {aside : List HeapEntry} (h : ValidWith q aside)
    (key : Key) : ValidWith (q.dropPending key).2 aside where
  keyed := by
    intro k job hk
    rw [get?_dropPending] at hk
    split at hk
    · cases hk
    · exact h.keyed k job hk
  disjoint := by
    intro k hk
    rw [(dropPending_frame q key).2.1]
    exact h.disjoint k ((mem_keys_dropPending q key k).mp hk).1
  heaped := by
    intro k hk
    rw [(dropPending_frame q key).1]
    exact h.heaped k ((mem_keys_dropPending q key k).mp hk).1
  labelled := by
    intro k hk
    obtain ⟨hm, hne⟩ := (mem_keys_dropPending q key k).mp hk
    exact mem_byLabel_dropPending q key k k.1 hne (h.labelled k hm)

theorem addDone_dropPending_valid {q : AdaptiveJobQueue} {aside : List HeapEntry}
    (h : ValidWith q aside) (key : Key) : ValidWith ((q.addDone key).dropPending key).2 aside where
  keyed := by
    intro k job hk
    rw [get?_dropPending] at hk
    split at hk
    · cases hk
    · exact h.keyed k job hk
  disjoint := by
    intro k hk
    obtain ⟨hm, hne⟩ := (mem_keys_dropPending _ key k).mp hk
    rw [(dropPending_frame _ key).2.1]
    simp only [addDone, Finset.mem_insert, not_or]
    exact ⟨hne, h.disjoint k hm⟩
  heaped := by
    intro k hk
    rw [(dropPending_frame _ key).1]
    exact h.heaped k ((mem_keys_dropPending _ key k).mp hk).1
  labelled := by
    intro k hk
    obtain ⟨hm, hne⟩ := (mem_keys_dropPending _ key k).mp hk
    exact mem_byLabel_dropPending _ key k k.1 hne (h.labelled k hm)

theorem mem_pushHeap (q : AdaptiveJobQueue) (key : Key) (priority : ℚ) (e : HeapEntry) :
    e ∈ (q.pushHeap key priority).heap ↔ e = ⟨-priority, q.seq + 1, key⟩ ∨ e ∈ q.heap := by
  rw [pushHeap, (heappush_perm HeapEntry.before q.heap _).mem_iff, List.mem_cons]

theorem pushHeap_valid {q : AdaptiveJobQueue} {aside : List HeapEntry} (h : ValidWith q aside)
    (key : Key) (priority : ℚ) : ValidWith (q.pushHeap key priority) aside := by
  refine h.reheap rfl rfl rfl ?_
  intro e he
  refine ⟨e, ?_, rfl⟩
  rcases List.mem_append.mp he with he | he
  · exact List.mem_append_left _ he
  · exact List.mem_append_right _ ((mem_pushHeap q key priority e).mpr (Or.inr he))

theorem ValidWith.perm {q : AdaptiveJobQueue} {aside aside' : List HeapEntry}
    (h : ValidWith q aside) (hp : aside.Perm aside') : ValidWith q aside' :=
  h.reheap rfl rfl rfl (fun e he => ⟨e, (hp.append_right _).mem_iff.mp he, rfl⟩)

theorem heappop_valid {q : AdaptiveJobQueue} {aside heap : List HeapEntry} {entry : HeapEntry}
    (h : ValidWith q aside) (hpop : heappop HeapEntry.before q.heap = some (entry, heap)) :
    ValidWith { q with heap := heap } (entry :: aside) := by
  refine h.reheap rfl rfl rfl ?_
  intro e he
  refine ⟨e, ?_, rfl⟩
  rcases List.mem_append.mp he with he | he
  · exact List.mem_append_left _ (List.mem_cons_of_mem _ he)
  rcases List.mem_cons.mp ((heappop_perm HeapEntry.before hpop).subset he) with rfl | he
  · exact List.mem_append_left _ List.mem_cons_self
  · exact List.mem_append_right _ he

/-- An entry may be thrown away when its key is not pending or has another entry. -/
theorem ValidWith.forget {q : AdaptiveJobQueue} {aside : List HeapEntry} {entry : HeapEntry}
    (h : ValidWith q (entry :: aside))
    (hkey : entry.key ∈ q.pending.keys → ∃ e ∈ aside ++ q.heap, e.key = entry.key) :
    ValidWith q aside := by
  refine ⟨h.keyed, h.disjoint, ?_, h.labelled⟩
  intro k hk
  obtain ⟨e, he, rfl⟩ := h.heaped k hk
  rcases List.mem_cons.mp he with rfl | he
  · exact hkey hk
  · exact ⟨e, he, rfl⟩

theorem mem_rebuildHeap {q : AdaptiveJobQueue} {k : Key} (hk : k ∈ q.pending.keys) :
    ∃ e ∈ q.rebuildHeap.heap, e.key = k := by
  obtain ⟨⟨k', job⟩, hm, rfl⟩ := List.mem_map.mp hk
  obtain ⟨i, hi, he⟩ := List.mem_iff_getElem.mp hm
  have hz : ((k', job), i) ∈ q.pending.entries.zipIdx := by
    rw [List.mem_iff_getElem]
    exact ⟨i, by simpa using hi, by simp [he]⟩
  refine ⟨⟨-q.jobPriority job, q.seq + i, k'⟩, ?_, rfl⟩
  rw [rebuildHeap, (heapify_perm HeapEntry.before _).mem_iff]
  exact List.mem_map.mpr ⟨((k', job), i), hz, rfl⟩

theorem rebuildHeap_valid {q : AdaptiveJobQueue} (h : Valid q) : Valid q.rebuildHeap where
  keyed := h.keyed
  disjoint := h.disjoint
  heaped := fun _ hk => mem_rebuildHeap hk
  labelled := h.labelled

theorem maybeCompactHeap_valid {q : AdaptiveJobQueue} (h : Valid q) : Valid q.maybeCompactHeap := by
  rw [maybeCompactHeap]
  split
  · exact rebuildHeap_valid h
  · exact h

theorem maybeRebuildHeap_valid {q : AdaptiveJobQueue} (h : Valid q) : Valid q.maybeRebuildHeap := by
  rw [maybeRebuildHeap]
  split
  · exact h
  · have hc : Valid { q with heapRebuildCounter := q.heapRebuildCounter + 1 } :=
      h.congr rfl rfl rfl rfl
    dsimp only
    split
    · exact (rebuildHeap_valid hc).congr rfl rfl rfl rfl
    · exact hc

theorem enqueue_valid {q : AdaptiveJobQueue} (h : Valid q) (job : AdaptiveJob) :
    Valid (q.enqueue job).2 := by
  rw [enqueue]
  split
  · exact h
  next hfree =>
    rw [not_or] at hfree
    constructor
    · intro k j hk
      simp only [pushHeap, Dict.get?_set] at hk
      split at hk
      next he => rw [← Option.some.inj hk]; exact he.symm
      next => exact h.keyed k j hk
    · intro k hk
      rcases (Dict.mem_keys_set _ _ _ _).mp hk with rfl | hk
      · exact hfree.2
      · exact h.disjoint k hk
    · intro k hk
      dsimp only [List.nil_append]
      rcases (Dict.mem_keys_set _ _ _ _).mp hk with rfl | hk
      · exact ⟨_, (mem_pushHeap _ _ _ _).mpr (Or.inl rfl), rfl⟩
      · obtain ⟨e, he, hek⟩ := h.heap hk
        exact ⟨e, (mem_pushHeap _ _ _ _).mpr (Or.inr he), hek⟩
    · intro k hk
      simp only [pushHeap]
      rcases (Dict.mem_keys_set _ _ _ _).mp hk with rfl | hk
      · simp [AdaptiveJob.key]
      · have hl := h.labelled k hk
        split
        · exact Finset.mem_insert_of_mem hl
        · exact hl

theorem enqueueMany_valid {q : AdaptiveJobQueue} (h : Valid q) (jobs : List AdaptiveJob) :
    Valid (q.enqueueMany jobs) := by
  rw [enqueueMany]
  induction jobs generalizing q with
  | nil => exact h
  | cons job jobs ih => exact ih (enqueue_valid h job)

theorem build_valid (items : List StrategyItem) (domains : List String) (weights : Weights)
    (epsilon : ℚ) (skipDomains : Finset String) (skipKeys : Finset Key) :
    Valid (build items domains weights epsilon skipDomains skipKeys) := by
  rw [build]
  refine ValidWith.congr (enqueueMany_valid ?_ _) rfl rfl rfl rfl
  constructor <;> intro k <;> simp [new]

theorem fanoutTo_valid {acc : Nat × AdaptiveJobQueue} (h : Valid acc.2) (item : StrategyItem)
    (dom : String) : Valid (fanoutTo item acc dom).2 := by
  rw [fanoutTo]
  split
  · exact h
  · have he := enqueue_valid h (.fromItem item dom true)
    split
    next hq => rw [hq] at he; exact he
    next hq => rw [hq] at he; exact he

theorem fanout_fold_valid (acc : Nat × AdaptiveJobQueue) (h : Valid acc.2) (item : StrategyItem)
    (doms : List String) : Valid (doms.foldl (fanoutTo item) acc).2 := by
  induction doms generalizing acc with
  | nil => exact h
  | cons dom doms ih => exact ih _ (fanoutTo_valid h item dom)

theorem clusterIndexForFanout_valid {q : AdaptiveJobQueue} (h : Valid q) :
    Valid q.clusterIndexForFanout := by
  rw [clusterIndexForFanout]
  split
  · exact h.congr rfl rfl rfl rfl
  · exact h

theorem fanoutOnPass_valid {q : AdaptiveJobQueue} (h : Valid q) (job : AdaptiveJob) :
    Valid (q.fanoutOnPass job).2 := by
  rw [fanoutOnPass]
  split
  · exact h
  · exact ValidWith.congr
      (fanout_fold_valid (0, _) (clusterIndexForFanout_valid h) job.item _) rfl rfl rfl rfl

theorem markDone_valid {q : AdaptiveJobQueue} (h : Valid q) (job : AdaptiveJob) (passed : Bool) :
    Valid (q.markDone job passed).2 := by
  have hd : Valid (q.closeJob job passed) :=
    (addDone_dropPending_valid h job.key).congr rfl rfl rfl rfl
  cases passed with
  | false => exact maybeCompactHeap_valid hd
  | true =>
      have hb : Valid ((q.closeJob job true).boostGenetics job) := hd.congr rfl rfl rfl rfl
      exact fanoutOnPass_valid (maybeCompactHeap_valid (maybeRebuildHeap_valid hb)) job

theorem resumeKey_valid {acc : Nat × AdaptiveJobQueue} (h : Valid acc.2) (flag : Key × Bool) :
    Valid (resumeKey acc flag).2 := by
  rw [resumeKey]
  split
  · exact addDone_dropPending_valid h flag.1
  · exact h

theorem filterResume_valid {q : AdaptiveJobQueue} (h : Valid q) (check : AdaptiveJob → Bool) :
    Valid (q.filterResume check).2 := by
  have hfold (flags : List (Key × Bool)) (acc : Nat × AdaptiveJobQueue) (ha : Valid acc.2) :
      Valid (flags.foldl resumeKey acc).2 := by
    induction flags generalizing acc with
    | nil => exact ha
    | cons flag flags ih => exact ih _ (resumeKey_valid ha flag)
  rw [filterResume]
  dsimp only
  split
  · exact hfold _ (0, q) h
  · exact maybeCompactHeap_valid (hfold _ (0, q) h)

theorem batchLoop_valid (first : AdaptiveJob) (maxSize : Nat) (protocol : String)
    (disableEch : Bool) {q : AdaptiveJobQueue} (h : Valid q) (batch : List AdaptiveJob)
    (doms : List String) : Valid (batchLoop first maxSize protocol disableEch q batch doms).2 := by
  induction doms generalizing q batch with
  | nil => exact h
  | cons dom doms ih =>
      rw [batchLoop]
      split
      · exact h
      · split
        · exact ih h batch
        · split
          · exact ih h batch
          · have hd := dropPending_valid h (first.item.label, dom)
            split
            next hq => rw [hq] at hd; exact ih hd _
            next hq => rw [hq] at hd; exact ih hd _

end Blockchecks.QueueInvariant
