import Blockchecks.QueueInvariant

namespace Blockchecks.QueuePop

open OrderedDict Heapq AdaptiveQueue AdaptiveJobQueue QueueInvariant

/-- Everything a pop can do, seen from outside: pending jobs stay, are handed
out, or are discarded for good because their domain is hard-excluded. -/
structure PopSpec (q : AdaptiveJobQueue) (exclude : Finset String) (r : Option AdaptiveJob)
    (q' : AdaptiveJobQueue) : Prop where
  excluded : q'.excludedDomains = q.excludedDomains
  allDomains : q'.allDomains = q.allDomains
  clusterIndex : q'.clusterIndex = q.clusterIndex
  subset : ∀ k job, q'.pending.get? k = some job → q.pending.get? k = some job
  kept : ∀ k job, q.pending.get? k = some job → q'.pending.get? k = some job ∨
    (job.domain ∈ q.excludedDomains ∧ k ∈ q'.done) ∨ r = some job
  taken : ∀ job, r = some job → q.pending.get? job.key = some job ∧
    job.domain ∉ q.excludedDomains ∧ q'.pending.get? job.key = none
  done_subset : q.done ⊆ q'.done
  done_new : ∀ k ∈ q'.done, k ∈ q.done ∨
    ∃ job, q.pending.get? k = some job ∧ job.domain ∈ q.excludedDomains
  exhausted : r = none → ∀ k job, q.pending.get? k = some job → job.domain ∈ q.excludedDomains
  soft : ∀ job, r = some job → job.domain ∈ exclude →
    ∀ k other, q.pending.get? k = some other → other.domain ∈ exclude

structure Trimmed (q q' : AdaptiveJobQueue) : Prop where
  excluded : q'.excludedDomains = q.excludedDomains
  allDomains : q'.allDomains = q.allDomains
  clusterIndex : q'.clusterIndex = q.clusterIndex
  subset : ∀ k job, q'.pending.get? k = some job → q.pending.get? k = some job
  kept : ∀ k job, q.pending.get? k = some job → q'.pending.get? k = some job ∨
    (job.domain ∈ q.excludedDomains ∧ k ∈ q'.done)
  done_subset : q.done ⊆ q'.done
  done_new : ∀ k ∈ q'.done, k ∈ q.done ∨
    ∃ job, q.pending.get? k = some job ∧ job.domain ∈ q.excludedDomains

theorem Trimmed.of_eq {q q' : AdaptiveJobQueue} (hp : q'.pending = q.pending)
    (hd : q'.done = q.done) (he : q'.excludedDomains = q.excludedDomains)
    (ha : q'.allDomains = q.allDomains) (hc : q'.clusterIndex = q.clusterIndex) : Trimmed q q' where
  excluded := he
  allDomains := ha
  clusterIndex := hc
  subset := by rw [hp]; exact fun _ _ h => h
  kept := by rw [hp]; exact fun _ _ h => Or.inl h
  done_subset := by rw [hd]
  done_new := by rw [hd]; exact fun _ h => Or.inl h

theorem Trimmed.trans {q q₁ q₂ : AdaptiveJobQueue} (h₁ : Trimmed q q₁) (h₂ : Trimmed q₁ q₂) :
    Trimmed q q₂ where
  excluded := h₂.excluded.trans h₁.excluded
  allDomains := h₂.allDomains.trans h₁.allDomains
  clusterIndex := h₂.clusterIndex.trans h₁.clusterIndex
  subset := fun k job hk => h₁.subset k job (h₂.subset k job hk)
  kept := by
    intro k job hk
    rcases h₁.kept k job hk with hk | ⟨hd, hdone⟩
    · rw [← h₁.excluded]
      exact h₂.kept k job hk
    · exact Or.inr ⟨hd, h₂.done_subset hdone⟩
  done_subset := h₁.done_subset.trans h₂.done_subset
  done_new := by
    intro k hk
    rcases h₂.done_new k hk with hk | ⟨job, hg, hd⟩
    · exact h₁.done_new k hk
    · exact Or.inr ⟨job, h₁.subset k job hg, h₁.excluded ▸ hd⟩

theorem PopSpec.of_trimmed {q q₁ q' : AdaptiveJobQueue} {exclude : Finset String}
    {r : Option AdaptiveJob} (ht : Trimmed q q₁) (h : PopSpec q₁ exclude r q')
    (hex : q.excludedDomains ⊆ exclude) : PopSpec q exclude r q' where
  excluded := h.excluded.trans ht.excluded
  allDomains := h.allDomains.trans ht.allDomains
  clusterIndex := h.clusterIndex.trans ht.clusterIndex
  subset := fun k job hk => ht.subset k job (h.subset k job hk)
  kept := by
    intro k job hk
    rcases ht.kept k job hk with hk₁ | ⟨hd, hdone⟩
    · rw [← ht.excluded]
      exact h.kept k job hk₁
    · exact Or.inr (Or.inl ⟨hd, h.done_subset hdone⟩)
  taken := by
    intro job hr
    obtain ⟨hg, hd, hn⟩ := h.taken job hr
    exact ⟨ht.subset _ _ hg, ht.excluded ▸ hd, hn⟩
  done_subset := ht.done_subset.trans h.done_subset
  done_new := by
    intro k hk
    rcases h.done_new k hk with hk₁ | ⟨job, hg, hd⟩
    · exact ht.done_new k hk₁
    · exact Or.inr ⟨job, ht.subset k job hg, ht.excluded ▸ hd⟩
  exhausted := by
    intro hr k job hk
    rcases ht.kept k job hk with hk₁ | ⟨hd, _⟩
    · rw [← ht.excluded]
      exact h.exhausted hr k job hk₁
    · exact hd
  soft := by
    intro job hr hs k other hk
    rcases ht.kept k other hk with hk₁ | ⟨hd, _⟩
    · exact h.soft job hr hs k other hk₁
    · exact hex hd

theorem discard_trimmed {q : AdaptiveJobQueue} {job : AdaptiveJob}
    (hg : q.pending.get? job.key = some job) (hd : job.domain ∈ q.excludedDomains) :
    Trimmed q ((q.addDone job.key).dropPending job.key).2 := by
  obtain ⟨_, hdone, hex, _, hall, hidx⟩ := dropPending_frame (q.addDone job.key) job.key
  refine ⟨hex, hall, hidx, ?_, ?_, ?_, ?_⟩
  · intro k j hk
    rw [get?_dropPending] at hk
    split at hk
    · cases hk
    · exact hk
  · intro k j hk
    rw [get?_dropPending, hdone]
    by_cases he : k = job.key
    · subst he
      obtain rfl : job = j := Option.some.inj (hg.symm.trans hk)
      exact Or.inr ⟨hd, Finset.mem_insert_self _ _⟩
    · rw [if_neg he]
      exact Or.inl hk
  · rw [hdone]
    exact Finset.subset_insert _ _
  · intro k hk
    rw [hdone] at hk
    rcases Finset.mem_insert.mp hk with rfl | hk
    · exact Or.inr ⟨job, hg, hd⟩
    · exact Or.inl hk

theorem handOut_spec {q q' : AdaptiveJobQueue} {exclude : Finset String} {key : Key}
    {job : AdaptiveJob} (hv : ∀ k j, q.pending.get? k = some j → j.key = k)
    (hg : q.pending.get? key = some job) (hd : job.domain ∉ q.excludedDomains)
    (hsoft : job.domain ∈ exclude →
      ∀ k other, q.pending.get? k = some other → other.domain ∈ exclude)
    (hget : ∀ k, q'.pending.get? k = if k = key then none else q.pending.get? k)
    (hdone : q'.done = q.done)
    (hex : q'.excludedDomains = q.excludedDomains) (hall : q'.allDomains = q.allDomains)
    (hidx : q'.clusterIndex = q.clusterIndex) : PopSpec q exclude (some job) q' := by
  have hkey : job.key = key := hv key job hg
  refine ⟨hex, hall, hidx, ?_, ?_, ?_, ?_, ?_, ?_, ?_⟩
  · intro k j hk
    rw [hget] at hk
    split at hk
    · cases hk
    · exact hk
  · intro k j hk
    rw [hget]
    by_cases he : k = key
    · subst he
      exact Or.inr (Or.inr (hg.symm.trans hk))
    · exact Or.inl (by simpa [he] using hk)
  · intro j hj
    obtain rfl := Option.some.inj hj
    exact ⟨hkey ▸ hg, hd, by rw [hget, hkey]; simp⟩
  · rw [hdone]
  · rw [hdone]
    exact fun _ hk => Or.inl hk
  · intro hr
    cases hr
  · intro j hj
    obtain rfl := Option.some.inj hj
    exact hsoft

theorem refuse_spec {q : AdaptiveJobQueue} {exclude : Finset String}
    (h : ∀ k job, q.pending.get? k = some job → job.domain ∈ q.excludedDomains) :
    PopSpec q exclude none q where
  excluded := rfl
  allDomains := rfl
  clusterIndex := rfl
  subset := fun _ _ hk => hk
  kept := fun _ _ hk => Or.inl hk
  taken := fun _ hr => by cases hr
  done_subset := Finset.Subset.refl _
  done_new := fun _ hk => Or.inl hk
  exhausted := fun _ => h
  soft := fun _ hr => by cases hr

/-- The entries held aside belong to pending jobs that only the caller's
exclusion keeps back. -/
def Skipped (q : AdaptiveJobQueue) (exclude : Finset String) (skipped : List HeapEntry) : Prop :=
  ∀ e ∈ skipped, ∃ job, q.pending.get? e.key = some job ∧
    job.domain ∈ exclude ∧ job.domain ∉ q.excludedDomains

theorem Skipped.of_trimmed {q q' : AdaptiveJobQueue} {exclude : Finset String}
    {skipped : List HeapEntry} (h : Skipped q exclude skipped) (ht : Trimmed q q') :
    Skipped q' exclude skipped := by
  intro e he
  obtain ⟨job, hg, hs, hd⟩ := h e he
  rcases ht.kept _ _ hg with hg' | ⟨hd', _⟩
  · exact ⟨job, hg', hs, ht.excluded ▸ hd⟩
  · exact absurd hd' hd

theorem popSkipped_spec {q : AdaptiveJobQueue} {exclude : Finset String}
    {skipped : List HeapEntry} (hv : ValidWith q skipped) (hs : Skipped q exclude skipped)
    (hempty : q.heap = []) :
    Valid (q.popSkipped skipped.length skipped).2 ∧
      PopSpec q exclude (q.popSkipped skipped.length skipped).1
        (q.popSkipped skipped.length skipped).2 := by
  have hall : ∀ k job, q.pending.get? k = some job → ∃ e ∈ skipped, e.key = k := by
    intro k job hk
    have := hv.heaped k ((Dict.mem_keys_iff _ _).mpr ⟨job, hk⟩)
    simpa [hempty] using this
  cases skipped with
  | nil =>
      refine ⟨hv, refuse_spec ?_⟩
      intro k job hk
      obtain ⟨e, he, _⟩ := hall k job hk
      simp at he
  | cons x xs =>
      obtain ⟨⟨entry, rest⟩, hpop⟩ : ∃ p, heappop HeapEntry.before (x :: xs) = some p := by
        apply Option.ne_none_iff_exists'.mp
        rw [Ne, heappop_eq_none_iff]
        simp
      have hperm := heappop_perm HeapEntry.before hpop
      obtain ⟨job, hg, hsoft, hd⟩ := hs entry (hperm.symm.subset (by simp))
      have hdrop : q.dropPending entry.key = (some job, (q.dropPending entry.key).2) :=
        Prod.ext ((dropPending_fst q entry.key).trans hg) rfl
      obtain ⟨hheap, hdone, hex, _, hdoms, hidx⟩ := dropPending_frame q entry.key
      simp only [List.length_cons, popSkipped, hpop]
      rw [hdrop]
      refine ⟨?_, handOut_spec hv.keyed hg hd ?_ (get?_dropPending q entry.key) hdone hex hdoms hidx⟩
      · have hdv := dropPending_valid hv entry.key
        refine ⟨hdv.keyed, hdv.disjoint, ?_, hdv.labelled⟩
        intro k hk
        obtain ⟨hm, hne⟩ := (mem_keys_dropPending q entry.key k).mp hk
        obtain ⟨j, hj⟩ := (Dict.mem_keys_iff _ _).mp hm
        obtain ⟨e, he, hek⟩ := hall k j hj
        have hrest : e ∈ rest := by
          rcases List.mem_cons.mp (hperm.subset he) with rfl | hr
          · exact absurd hek.symm hne
          · exact hr
        refine ⟨e, ?_, hek⟩
        rw [List.nil_append, (heappushAll_perm HeapEntry.before _ rest).mem_iff]
        exact List.mem_append_left _ hrest
      · intro _ k other hk
        obtain ⟨e, he, rfl⟩ := hall k other hk
        obtain ⟨j, hj, hjs, _⟩ := hs e he
        obtain rfl : j = other := Option.some.inj (hj.symm.trans hk)
        exact hjs

def staleEntry (q : AdaptiveJobQueue) (e : HeapEntry) : Bool :=
  match q.pending.get? e.key with
  | some job => q.entryStale e job
  | none => false

/-- Each turn of the heap loop lowers the number of entries plus the number of
stale ones. -/
def potential (q : AdaptiveJobQueue) : Nat := q.heap.length + q.heap.countP (staleEntry q)

theorem potential_lt_popFuel (q : AdaptiveJobQueue) : potential q < q.popFuel := by
  have := List.countP_le_length (p := staleEntry q) (l := q.heap)
  rw [potential, popFuel]
  omega

theorem potential_pop {q : AdaptiveJobQueue} {entry : HeapEntry} {heap : List HeapEntry}
    (hpop : heappop HeapEntry.before q.heap = some (entry, heap)) :
    potential q = potential { q with heap := heap } + 1 + (if staleEntry q entry then 1 else 0) := by
  have hperm := heappop_perm HeapEntry.before hpop
  have hl := hperm.length_eq
  have hc := hperm.countP_eq (staleEntry q)
  rw [List.countP_cons] at hc
  rw [List.length_cons] at hl
  have hs : staleEntry { q with heap := heap } = staleEntry q := rfl
  unfold potential
  rw [hs, hl, hc]
  dsimp only
  omega

theorem potential_dropped (q : AdaptiveJobQueue) (key : Key) :
    potential ((q.addDone key).dropPending key).2 ≤ potential q := by
  obtain ⟨hheap, _, _, hw, _, _⟩ := dropPending_frame (q.addDone key) key
  rw [potential, hheap]
  refine Nat.add_le_add_left (List.countP_mono_left ?_) _
  intro e _ he
  rw [staleEntry] at he ⊢
  rw [get?_dropPending] at he
  by_cases hk : e.key = key
  · simp [hk] at he
  · simp only [hk, if_false] at he
    have hg : (q.addDone key).pending = q.pending := rfl
    rw [hg] at he
    cases hp : q.pending.get? e.key with
    | none => simp [hp] at he
    | some job =>
        simp only [hp] at he ⊢
        rw [entryStale, jobPriority] at he ⊢
        rw [hw] at he
        exact he

theorem potential_refreshed {q : AdaptiveJobQueue} {job : AdaptiveJob}
    (hg : q.pending.get? job.key = some job) :
    potential (q.refreshStaleEntry job) = potential q + 1 := by
  have hperm := heappush_perm HeapEntry.before q.heap ⟨-q.jobPriority job, q.seq + 1, job.key⟩
  have hfresh : staleEntry q ⟨-q.jobPriority job, q.seq + 1, job.key⟩ = false := by
    simp [staleEntry, hg, entryStale]
  have hs : staleEntry (q.refreshStaleEntry job) = staleEntry q := rfl
  simp only [potential]
  rw [hs]
  simp only [refreshStaleEntry, pushHeap]
  rw [hperm.length_eq, hperm.countP_eq, List.countP_cons, List.length_cons, hfresh]
  simp only [Bool.false_eq_true, if_false]
  omega

/-- The heap loop ends within its fuel and does what a pop may do. -/
theorem popHeap_spec {exclude : Finset String} (fuel : Nat) {q : AdaptiveJobQueue}
    {skipped : List HeapEntry} (hv : ValidWith q skipped) (hs : Skipped q exclude skipped)
    (hex : q.excludedDomains ⊆ exclude) (hfuel : potential q < fuel) :
    ∃ r q', popHeap exclude fuel q skipped = some (r, q') ∧ Valid q' ∧ PopSpec q exclude r q' := by
  induction fuel generalizing q skipped with
  | zero => omega
  | succ fuel ih =>
      cases hpop : heappop HeapEntry.before q.heap with
      | none =>
          have hempty : q.heap = [] := (heappop_eq_none_iff HeapEntry.before _).mp hpop
          obtain ⟨hv', hspec⟩ := popSkipped_spec hv hs hempty
          exact ⟨_, _, by simp only [popHeap, hpop], hv', hspec⟩
      | some p =>
          obtain ⟨entry, heap⟩ := p
          have hpot := potential_pop hpop
          have hv₁ := heappop_valid hv hpop
          have htrim : Trimmed q { q with heap := heap } := .of_eq rfl rfl rfl rfl rfl
          have hs₁ := hs.of_trimmed htrim
          -- the loop goes on with a queue that lost only hard-excluded jobs
          have goOn {q₁ : AdaptiveJobQueue} {skipped₁ : List HeapEntry}
              (ht : Trimmed q q₁) (hv₁ : ValidWith q₁ skipped₁) (hs₁ : Skipped q₁ exclude skipped₁)
              (hp : potential q₁ < potential q) :
              ∃ r q', popHeap exclude fuel q₁ skipped₁ = some (r, q') ∧ Valid q' ∧
                PopSpec q exclude r q' := by
            obtain ⟨r, q', hr, hv', hspec⟩ := ih hv₁ hs₁ (ht.excluded ▸ hex) (by omega)
            exact ⟨r, q', hr, hv', hspec.of_trimmed ht hex⟩
          simp only [popHeap, hpop]
          cases hg : q.pending.get? entry.key with
          | none =>
              refine goOn htrim (hv₁.forget ?_) hs₁ (by omega)
              intro hk
              exact absurd hk ((Dict.get?_eq_none_iff _ _).mp hg)
          | some job =>
              have hkey : job.key = entry.key := hv.keyed _ _ hg
              have hgj : q.pending.get? job.key = some job := hkey ▸ hg
              dsimp only
              split
              next hstale =>
                have hpr := potential_refreshed (q := { q with heap := heap }) hgj
                have hst : staleEntry q entry = true := by
                  rw [staleEntry, hg]
                  exact hstale
                rw [hst, if_pos rfl] at hpot
                refine goOn (.of_eq rfl rfl rfl rfl rfl) ?_ hs₁ (by omega)
                apply (pushHeap_valid hv₁ _ _).forget
                intro _
                exact ⟨_, List.mem_append_right _ ((mem_pushHeap _ _ _ _).mpr (Or.inl rfl)), hkey⟩
              next =>
                split
                next hd =>
                  have hdrop := discard_trimmed (q := { q with heap := heap }) hgj hd
                  have hpd := potential_dropped { q with heap := heap } job.key
                  have hvd := addDone_dropPending_valid hv₁ job.key
                  refine goOn (htrim.trans hdrop) (hvd.forget ?_) (hs₁.of_trimmed hdrop) (by omega)
                  intro hk
                  exact absurd hkey.symm ((mem_keys_dropPending _ _ _).mp hk).2
                next hd =>
                  split
                  next hsoft =>
                    refine goOn htrim (hv₁.perm (List.perm_append_singleton entry skipped).symm) ?_
                      (by omega)
                    intro e he
                    rcases List.mem_append.mp he with he | he
                    · exact hs₁ e he
                    · obtain rfl := List.mem_singleton.mp he
                      exact ⟨job, hg, hsoft, hd⟩
                  next hsoft =>
                    obtain ⟨hheap, hdone, hexc, _, hdoms, hidx⟩ :=
                      dropPending_frame { q with heap := heap } job.key
                    refine ⟨_, _, rfl, ?_, handOut_spec hv.keyed hgj hd (absurd · hsoft)
                      (get?_dropPending _ job.key) hdone hexc hdoms hidx⟩
                    have hvd := (dropPending_valid hv₁ job.key).forget
                      (fun hk => absurd hkey.symm ((mem_keys_dropPending _ _ _).mp hk).2)
                    refine hvd.reheap rfl rfl rfl ?_
                    intro e he
                    refine ⟨e, ?_, rfl⟩
                    rw [List.nil_append, (heappushAll_perm HeapEntry.before _ skipped).mem_iff]
                    exact he

theorem mem_keysOutside {q : AdaptiveJobQueue} {exclude : Finset String} {key : Key} :
    key ∈ q.keysOutside exclude ↔
      ∃ job, q.pending.get? key = some job ∧ job.domain ∉ exclude := by
  rw [keysOutside]
  simp only [List.mem_map, List.mem_filter, decide_eq_true_eq, Dict.get?_eq_some_iff]
  constructor
  · rintro ⟨⟨k, job⟩, ⟨hm, hd⟩, rfl⟩
    exact ⟨job, hm, hd⟩
  · rintro ⟨job, hm, hd⟩
    exact ⟨(key, job), ⟨hm, hd⟩, rfl⟩

/-- The first key is always taken: randint(1, 1) is 1. -/
theorem reservoir_mem (rng : Rng) (count : Nat) (chosen : Option Key) (keys : List Key)
    (h : chosen ≠ none ∨ count = 0 ∧ keys ≠ []) :
    ∃ key, reservoir rng count chosen keys = some key ∧ (chosen = some key ∨ key ∈ keys) := by
  induction keys generalizing count chosen with
  | nil =>
      obtain ⟨key, hkey⟩ := Option.ne_none_iff_exists'.mp (h.resolve_right (by simp))
      exact ⟨key, hkey, Or.inl hkey⟩
  | cons k keys ih =>
      have hne : (if rng.randint (count + 1) = 1 then some k else chosen) ≠ none := by
        split
        · simp
        next hr =>
          rcases h with hc | ⟨rfl, _⟩
          · exact hc
          · have h₁ := rng.randint_pos 1 (by omega)
            have h₂ := rng.randint_le 1 (by omega)
            exact absurd (Nat.le_antisymm h₂ h₁) hr
      obtain ⟨key, hkey, hm⟩ := ih (count + 1) _ (Or.inl hne)
      refine ⟨key, hkey, ?_⟩
      rcases hm with hm | hm
      · split at hm
        · exact Or.inr (Option.some.inj hm ▸ List.mem_cons_self)
        · exact Or.inl hm
      · exact Or.inr (List.mem_cons_of_mem _ hm)

/-- A random pick avoids the hard exclusions, and the soft ones as well
whenever some pending job does. -/
theorem epsilonPickKey_spec {q : AdaptiveJobQueue} {exclude : Finset String}
    (hex : q.excludedDomains ⊆ exclude) (rng : Rng) :
    match q.epsilonPickKey exclude rng with
    | none => ∀ k job, q.pending.get? k = some job → job.domain ∈ q.excludedDomains
    | some key => ∃ job, q.pending.get? key = some job ∧ job.domain ∉ q.excludedDomains ∧
        (job.domain ∈ exclude →
          ∀ k other, q.pending.get? k = some other → other.domain ∈ exclude) := by
  rw [epsilonPickKey]
  cases hk : q.keysOutside exclude with
  | cons k keys =>
      obtain ⟨key, hr, hm⟩ := reservoir_mem rng 0 none (k :: keys) (Or.inr ⟨rfl, by simp⟩)
      obtain ⟨job, hg, hd⟩ := mem_keysOutside.mp (hk ▸ hm.resolve_left (by simp))
      simp only [hr]
      exact ⟨job, hg, fun h => hd (hex h), fun h => absurd h hd⟩
  | nil =>
      have hall : ∀ k job, q.pending.get? k = some job → job.domain ∈ exclude := by
        intro k job hg
        by_contra hd
        have hm : k ∈ q.keysOutside exclude := mem_keysOutside.mpr ⟨job, hg, hd⟩
        rw [hk] at hm
        cases hm
      dsimp only
      cases hk' : q.keysOutside q.excludedDomains with
      | nil =>
          intro k job hg
          by_contra hd
          have hm : k ∈ q.keysOutside q.excludedDomains := mem_keysOutside.mpr ⟨job, hg, hd⟩
          rw [hk'] at hm
          cases hm
      | cons k keys =>
          obtain ⟨key, hr, hm⟩ := reservoir_mem rng 0 none (k :: keys) (Or.inr ⟨rfl, by simp⟩)
          obtain ⟨job, hg, hd⟩ := mem_keysOutside.mp (hk' ▸ hm.resolve_left (by simp))
          simp only [hr]
          exact ⟨job, hg, hd, fun _ => hall⟩

theorem pop_spec {q : AdaptiveJobQueue} (hv : Valid q) (excludeDomains : Finset String)
    (rng : Rng) : ∃ r q', q.pop excludeDomains rng = some (r, q') ∧ Valid q' ∧
      PopSpec q (excludeDomains ∪ q.excludedDomains) r q' := by
  have hex : q.excludedDomains ⊆ excludeDomains ∪ q.excludedDomains := Finset.subset_union_right
  rw [pop]
  split
  next hsize =>
    refine ⟨none, q, rfl, hv, refuse_spec ?_⟩
    intro k job hg
    have hm := (Dict.get?_eq_some_iff _ _ _).mp hg
    rw [List.length_eq_zero_iff.mp hsize] at hm
    cases hm
  next =>
    dsimp only
    split
    · have hpick := epsilonPickKey_spec hex rng
      split
      next hk =>
        rw [hk] at hpick
        exact ⟨none, q, rfl, hv, refuse_spec hpick⟩
      next key hk =>
        rw [hk] at hpick
        obtain ⟨job, hg, hd, hsoft⟩ := hpick
        obtain ⟨_, hdone, hexc, _, hdoms, hidx⟩ := dropPending_frame q key
        have hdrop : q.dropPending key = (some job, (q.dropPending key).2) :=
          Prod.ext ((dropPending_fst q key).trans hg) rfl
        exact ⟨some job, _, congrArg some hdrop, dropPending_valid hv key,
          handOut_spec hv.keyed hg hd hsoft (get?_dropPending q key) hdone hexc hdoms hidx⟩
    · exact popHeap_spec _ hv (fun e he => by cases he) hex (potential_lt_popFuel q)

theorem pop_result {q q' : AdaptiveJobQueue} {r : Option AdaptiveJob} {excludeDomains : Finset String}
    {rng : Rng} (hv : Valid q) (h : q.pop excludeDomains rng = some (r, q')) :
    Valid q' ∧ PopSpec q (excludeDomains ∪ q.excludedDomains) r q' := by
  obtain ⟨r₁, q₁, hpop, hv₁, hspec⟩ := pop_spec hv excludeDomains rng
  obtain ⟨rfl, rfl⟩ := Prod.mk.inj (Option.some.inj (hpop.symm.trans h))
  exact ⟨hv₁, hspec⟩

theorem popBatch_valid {q : AdaptiveJobQueue} (hv : Valid q) (maxSize : Nat) (protocol : String)
    (disableEch : Bool) (rng : Rng) (order : List Key) :
    ∃ batch q', q.popBatch maxSize protocol disableEch rng order = some (batch, q') ∧ Valid q' := by
  obtain ⟨r, q₁, hpop, hv₁, _⟩ := pop_spec hv ∅ rng
  rw [popBatch]
  simp only [hpop, Option.bind_eq_bind, Option.bind_some]
  cases r with
  | none => exact ⟨[], q₁, rfl, hv₁⟩
  | some first =>
      dsimp only
      split
      · exact ⟨[first], q₁, rfl, hv₁⟩
      split
      · exact ⟨[first], q₁, rfl, hv₁⟩
      · exact ⟨_, _, rfl, maybeCompactHeap_valid (batchLoop_valid first _ _ _ hv₁ _ _)⟩

end Blockchecks.QueuePop
