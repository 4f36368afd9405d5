import Blockchecks.QueueInvariant

namespace Blockchecks.QueueMark

open OrderedDict StrategyText AdaptiveQueue AdaptiveJobQueue QueueInvariant

def fanoutDomains (q : AdaptiveJobQueue) (job : AdaptiveJob) : List String :=
  if q.allDomains = [] then []
  else (siblingDomains job.domain q.clusterIndexForFanout.clusterIndex).filter
    (fun dom => decide (dom ∉ q.excludedDomains))

/-- What a fan-out over some domains does to the pending jobs: all of them
stay, and a free key may be taken by a fan-out job of the same strategy. -/
structure FanoutSpec (q : AdaptiveJobQueue) (item : StrategyItem) (doms : List String)
    (q' : AdaptiveJobQueue) : Prop where
  excluded : q'.excludedDomains = q.excludedDomains
  allDomains : q'.allDomains = q.allDomains
  done : q'.done = q.done
  kept : ∀ k job, q.pending.get? k = some job → q'.pending.get? k = some job
  new : ∀ k job, q'.pending.get? k = some job → q.pending.get? k = some job ∨
    (job = .fromItem item k.2 true ∧ k.1 = item.label ∧ k.2 ∈ doms ∧ k.2 ∉ q.excludedDomains ∧
      k ∉ q.done)

theorem FanoutSpec.refl (q : AdaptiveJobQueue) (item : StrategyItem) : FanoutSpec q item [] q :=
  ⟨rfl, rfl, rfl, fun _ _ h => h, fun _ _ h => Or.inl h⟩

theorem FanoutSpec.trans {q q₁ q₂ : AdaptiveJobQueue} {item : StrategyItem} {doms₁ doms₂ : List String}
    (h₁ : FanoutSpec q item doms₁ q₁) (h₂ : FanoutSpec q₁ item doms₂ q₂) :
    FanoutSpec q item (doms₁ ++ doms₂) q₂ where
  excluded := h₂.excluded.trans h₁.excluded
  allDomains := h₂.allDomains.trans h₁.allDomains
  done := h₂.done.trans h₁.done
  kept := fun k job hk => h₂.kept k job (h₁.kept k job hk)
  new := by
    intro k job hk
    rcases h₂.new k job hk with hk | ⟨hj, hl, hm, hd, hn⟩
    · rcases h₁.new k job hk with hk | ⟨hj, hl, hm, hd, hn⟩
      · exact Or.inl hk
      · exact Or.inr ⟨hj, hl, List.mem_append_left _ hm, hd, hn⟩
    · exact Or.inr ⟨hj, hl, List.mem_append_right _ hm, h₁.excluded ▸ hd, h₁.done ▸ hn⟩

theorem enqueue_frame (q : AdaptiveJobQueue) (job : AdaptiveJob) :
    (q.enqueue job).2.excludedDomains = q.excludedDomains ∧
      (q.enqueue job).2.allDomains = q.allDomains ∧ (q.enqueue job).2.done = q.done ∧
      (q.enqueue job).2.clusterIndex = q.clusterIndex := by
  rw [enqueue]
  split <;> exact ⟨rfl, rfl, rfl, rfl⟩

theorem get?_enqueue (q : AdaptiveJobQueue) (job : AdaptiveJob) (k : Key) :
    (q.enqueue job).2.pending.get? k =
      if k = job.key ∧ job.key ∉ q.pending.keys ∧ job.key ∉ q.done then some job
      else q.pending.get? k := by
  rw [enqueue]
  split
  next h =>
    rw [if_neg]
    rintro ⟨_, hp, hd⟩
    exact h.elim hp hd
  next h =>
    rw [not_or] at h
    simp only [pushHeap, Dict.get?_set, h, not_false_eq_true, and_self, and_true]

theorem fanoutTo_spec (item : StrategyItem) (acc : Nat × AdaptiveJobQueue) (dom : String) :
    FanoutSpec acc.2 item [dom] (fanoutTo item acc dom).2 := by
  have hsnd : (fanoutTo item acc dom).2 =
      if dom ∈ acc.2.excludedDomains then acc.2
      else (acc.2.enqueue (.fromItem item dom true)).2 := by
    rw [fanoutTo]
    split
    · rfl
    · split <;> next he => rw [he]
  rw [hsnd]
  split
  next => exact ⟨rfl, rfl, rfl, fun _ _ h => h, fun _ _ h => Or.inl h⟩
  next hdom =>
    obtain ⟨hex, hall, hdone, _⟩ := enqueue_frame acc.2 (.fromItem item dom true)
    refine ⟨hex, hall, hdone, ?_, ?_⟩
    · intro k job hk
      rw [get?_enqueue, if_neg]
      · exact hk
      · rintro ⟨rfl, hp, _⟩
        exact hp ((Dict.mem_keys_iff _ _).mpr ⟨job, hk⟩)
    · intro k job hk
      rw [get?_enqueue] at hk
      split at hk
      next h =>
        obtain ⟨rfl, _, hd⟩ := h
        obtain rfl := Option.some.inj hk
        exact Or.inr ⟨rfl, rfl, List.mem_singleton_self _, hdom, hd⟩
      next => exact Or.inl hk

theorem fanout_fold_spec (item : StrategyItem) (doms : List String) (acc : Nat × AdaptiveJobQueue) :
    FanoutSpec acc.2 item doms (doms.foldl (fanoutTo item) acc).2 := by
  induction doms generalizing acc with
  | nil => exact .refl acc.2 item
  | cons dom doms ih => exact (fanoutTo_spec item acc dom).trans (ih _)

theorem fanoutOnPass_spec (q : AdaptiveJobQueue) (job : AdaptiveJob) :
    FanoutSpec q job.item (fanoutDomains q job) (q.fanoutOnPass job).2 := by
  rw [fanoutOnPass, fanoutDomains]
  split
  next => exact .refl q job.item
  next =>
    have hc : q.clusterIndexForFanout.pending = q.pending ∧
        q.clusterIndexForFanout.excludedDomains = q.excludedDomains ∧
        q.clusterIndexForFanout.allDomains = q.allDomains ∧
        q.clusterIndexForFanout.done = q.done := by
      rw [clusterIndexForFanout]
      split <;> exact ⟨rfl, rfl, rfl, rfl⟩
    obtain ⟨hp, hex, hall, hdone⟩ := hc
    have h := fanout_fold_spec job.item
      (siblingDomains job.domain q.clusterIndexForFanout.clusterIndex) (0, q.clusterIndexForFanout)
    refine ⟨h.excluded.trans hex, h.allDomains.trans hall, h.done.trans hdone, ?_, ?_⟩
    · intro k j hk
      exact h.kept k j (by rw [hp]; exact hk)
    · intro k j hk
      rcases h.new k j hk with hk | ⟨hj, hl, hm, hd, hn⟩
      · exact Or.inl (hp ▸ hk)
      · rw [hex] at hd
        exact Or.inr ⟨hj, hl, List.mem_filter.mpr ⟨hm, by simpa using hd⟩, hd, hdone ▸ hn⟩

/-- Everything a mark_done can do, seen from outside. -/
structure MarkSpec (q : AdaptiveJobQueue) (job : AdaptiveJob) (passed : Bool)
    (q' : AdaptiveJobQueue) : Prop where
  excluded : q'.excludedDomains = q.excludedDomains
  done : q'.done = insert job.key q.done
  kept : ∀ k j, q.pending.get? k = some j → k ≠ job.key → q'.pending.get? k = some j
  new : ∀ k j, q'.pending.get? k = some j → k ≠ job.key ∧ (q.pending.get? k = some j ∨
    (passed = true ∧ j = .fromItem job.item k.2 true ∧ k.1 = job.item.label ∧
      k.2 ∈ fanoutDomains q job ∧ k ∉ q.done))

structure SameJobs (q q' : AdaptiveJobQueue) : Prop where
  pending : q'.pending = q.pending
  done : q'.done = q.done
  excluded : q'.excludedDomains = q.excludedDomains
  allDomains : q'.allDomains = q.allDomains
  clusterIndex : q'.clusterIndex = q.clusterIndex

theorem SameJobs.refl (q : AdaptiveJobQueue) : SameJobs q q := ⟨rfl, rfl, rfl, rfl, rfl⟩

theorem SameJobs.trans {q q₁ q₂ : AdaptiveJobQueue} (h₁ : SameJobs q q₁) (h₂ : SameJobs q₁ q₂) :
    SameJobs q q₂ :=
  ⟨h₂.pending.trans h₁.pending, h₂.done.trans h₁.done, h₂.excluded.trans h₁.excluded,
    h₂.allDomains.trans h₁.allDomains, h₂.clusterIndex.trans h₁.clusterIndex⟩

theorem maybeCompactHeap_same (q : AdaptiveJobQueue) : SameJobs q q.maybeCompactHeap := by
  rw [maybeCompactHeap]
  split
  · exact ⟨rfl, rfl, rfl, rfl, rfl⟩
  · exact .refl q

theorem maybeRebuildHeap_same (q : AdaptiveJobQueue) : SameJobs q q.maybeRebuildHeap := by
  rw [maybeRebuildHeap]
  split
  · exact .refl q
  · dsimp only
    split <;> exact ⟨rfl, rfl, rfl, rfl, rfl⟩

theorem fanoutDomains_congr {q q' : AdaptiveJobQueue} (hex : q'.excludedDomains = q.excludedDomains)
    (hall : q'.allDomains = q.allDomains) (hidx : q'.clusterIndex = q.clusterIndex)
    (job : AdaptiveJob) : fanoutDomains q' job = fanoutDomains q job := by
  simp only [fanoutDomains, clusterIndexForFanout]
  rw [hall, hex, hidx]
  split
  · rfl
  · split
    · rfl
    · rw [hidx]

theorem closeJob_spec (q : AdaptiveJobQueue) (job : AdaptiveJob) (passed : Bool) :
    (q.closeJob job passed).done = insert job.key q.done ∧
      (∀ k, (q.closeJob job passed).pending.get? k =
        if k = job.key then none else q.pending.get? k) ∧
      (q.closeJob job passed).excludedDomains = q.excludedDomains ∧
      (q.closeJob job passed).allDomains = q.allDomains ∧
      (q.closeJob job passed).clusterIndex = q.clusterIndex := by
  obtain ⟨_, hdone, hex, _, hall, hidx⟩ := dropPending_frame (q.addDone job.key) job.key
  exact ⟨hdone, get?_dropPending (q.addDone job.key) job.key, hex, hall, hidx⟩

theorem markDone_spec (q : AdaptiveJobQueue) (job : AdaptiveJob) (passed : Bool) :
    MarkSpec q job passed (q.markDone job passed).2 := by
  obtain ⟨hdone, hget, hex, hall, hidx⟩ := closeJob_spec q job passed
  have hkept {q₁ : AdaptiveJobQueue} (hs : SameJobs (q.closeJob job passed) q₁) (k : Key) :
      q₁.pending.get? k = if k = job.key then none else q.pending.get? k := by
    rw [hs.pending, hget]
  cases passed with
  | false =>
      have hs := maybeCompactHeap_same (q.closeJob job false)
      refine ⟨hs.excluded.trans hex, hs.done.trans hdone, ?_, ?_⟩
      · intro k j hk hne
        exact (hkept hs k).trans (by rw [if_neg hne, hk])
      · intro k j hk
        have hk := (hkept hs k).symm.trans hk
        split at hk
        · cases hk
        next hne => exact ⟨hne, Or.inl hk⟩
  | true =>
      have hboost : SameJobs (q.closeJob job true) ((q.closeJob job true).boostGenetics job) :=
        ⟨rfl, rfl, rfl, rfl, rfl⟩
      have hs : SameJobs (q.closeJob job true)
          ((q.closeJob job true).boostGenetics job).maybeRebuildHeap.maybeCompactHeap :=
        hboost.trans ((maybeRebuildHeap_same _).trans (maybeCompactHeap_same _))
      have hf := fanoutOnPass_spec
        ((q.closeJob job true).boostGenetics job).maybeRebuildHeap.maybeCompactHeap job
      have hdoms : fanoutDomains
          ((q.closeJob job true).boostGenetics job).maybeRebuildHeap.maybeCompactHeap job =
          fanoutDomains q job :=
        fanoutDomains_congr (hs.excluded.trans hex) (hs.allDomains.trans hall)
          (hs.clusterIndex.trans hidx) job
      rw [hdoms] at hf
      refine ⟨hf.excluded.trans (hs.excluded.trans hex), hf.done.trans (hs.done.trans hdone), ?_, ?_⟩
      · intro k j hk hne
        apply hf.kept k j
        rw [hkept hs, if_neg hne, hk]
      · intro k j hk
        rcases hf.new k j hk with hk | ⟨hj, hl, hm, _, hn⟩
        · rw [hkept hs] at hk
          split at hk
          · cases hk
          next hne => exact ⟨hne, Or.inl hk⟩
        · rw [hs.done, hdone, Finset.mem_insert, not_or] at hn
          exact ⟨hn.1, Or.inr ⟨rfl, hj, hl, hm, hn.2⟩⟩

end Blockchecks.QueueMark
