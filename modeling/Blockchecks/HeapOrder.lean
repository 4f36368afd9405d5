import Blockchecks.Heapq

namespace Blockchecks.HeapOrder

open Heapq

variable {α : Type}

/-- A strict weak order, such as the comparison of a sort key. -/
structure WeakOrder (lt : α → α → Bool) : Prop where
  asymm : ∀ {a b}, lt a b = true → lt b a = false
  trans : ∀ {a b c}, lt b a = false → lt c b = false → lt c a = false

theorem WeakOrder.irrefl {lt : α → α → Bool} (w : WeakOrder lt) (a : α) : lt a a = false := by
  cases h : lt a a with
  | false => rfl
  | true => exact h.symm.trans (w.asymm h)

def IsChild (c p : Nat) : Prop := c = 2 * p + 1 ∨ c = 2 * p + 2

variable (lt : α → α → Bool)

/-- What stands at j is not before what stands at i. -/
def InOrder (xs : List α) (i j : Nat) : Prop := ∀ a b, xs[i]? = some a → xs[j]? = some b → lt b a = false

/-- The heap order of every parent from start on. -/
def HeapFrom (start : Nat) (xs : List α) : Prop := ∀ p c, start ≤ p → IsChild c p → InOrder lt xs p c

/-- The item at pos may be out of order with its neighbours; all other pairs are in
order, and so are the parent and the children of pos. -/
structure Hole (start : Nat) (xs : List α) (pos : Nat) : Prop where
  off : ∀ p c, start ≤ p → IsChild c p → p ≠ pos → c ≠ pos → InOrder lt xs p c
  grand : ∀ g c, start ≤ g → IsChild pos g → IsChild c pos → InOrder lt xs g c

/-- Only the item and its parent may be out of order. -/
structure Rising (start : Nat) (xs : List α) (pos : Nat) : Prop extends Hole lt start xs pos where
  below : ∀ c, IsChild c pos → InOrder lt xs pos c

/-- The positions of the subtree under start. -/
inductive Below (start : Nat) : Nat → Prop where
  | self : Below start start
  | child {p c : Nat} (h : Below start p) (hc : IsChild c p) : Below start c

theorem Below.le {start pos : Nat} (h : Below start pos) : start ≤ pos := by
  induction h with
  | self => exact Nat.le_refl start
  | child _ hc ih => unfold IsChild at hc; omega

theorem Below.parent {start pos : Nat} (h : Below start pos) (hlt : start < pos) : Below start ((pos - 1) / 2) := by
  cases h with
  | self => omega
  | @child p _ h hc =>
      have hp : (pos - 1) / 2 = p := by unfold IsChild at hc; omega
      rwa [hp]

theorem below_zero (pos : Nat) : Below 0 pos := by
  induction pos using Nat.strongRecOn with
  | ind pos ih =>
      rcases Nat.eq_zero_or_pos pos with rfl | hpos
      · exact .self
      · exact .child (ih ((pos - 1) / 2) (by omega)) (by unfold IsChild; omega)

theorem getElem?_swap {xs : List α} {i j : Nat} (hi : i < xs.length) (hj : j < xs.length) (k : Nat) :
    (swap xs i j)[k]? = if k = j then xs[i]? else if k = i then xs[j]? else xs[k]? := by
  rw [swap, List.getElem?_eq_getElem hi, List.getElem?_eq_getElem hj]
  dsimp only
  rw [List.getElem?_set, List.getElem?_set]
  by_cases hkj : k = j
  · subst hkj
    simp [hj]
  · by_cases hki : k = i
    · subst hki
      simp [hkj, Ne.symm hkj, hi]
    · simp [hkj, hki, Ne.symm hkj, Ne.symm hki]

variable {lt}

theorem InOrder.congr {xs ys : List α} {i j i' j' : Nat} (h : InOrder lt xs i j) (hi : ys[i']? = xs[i]?)
    (hj : ys[j']? = xs[j]?) : InOrder lt ys i' j' := by
  intro a b ha hb
  exact h a b (hi ▸ ha) (hj ▸ hb)

theorem InOrder.trans (w : WeakOrder lt) {xs : List α} {i j k : Nat} (hij : InOrder lt xs i j)
    (hjk : InOrder lt xs j k) (hj : j < xs.length) : InOrder lt xs i k := by
  intro a c ha hc
  have hb := List.getElem?_eq_getElem hj
  exact w.trans (hij a _ ha hb) (hjk _ c hb hc)

theorem inOrder_of_lt (w : WeakOrder lt) {xs : List α} {i j : Nat} {a b : α} (ha : xs[i]? = some a)
    (hb : xs[j]? = some b) (h : lt a b = true) : InOrder lt xs i j := by
  intro a' b' ha' hb'
  obtain rfl := Option.some.inj (ha.symm.trans ha')
  obtain rfl := Option.some.inj (hb.symm.trans hb')
  exact w.asymm h

theorem inOrder_of_not_lt {xs : List α} {i j : Nat} {a b : α} (ha : xs[i]? = some a) (hb : xs[j]? = some b)
    (h : lt b a = false) : InOrder lt xs i j := by
  intro a' b' ha' hb'
  obtain rfl := Option.some.inj (ha.symm.trans ha')
  obtain rfl := Option.some.inj (hb.symm.trans hb')
  exact h

theorem inOrder_of_end {xs : List α} {i j : Nat} (h : xs.length ≤ j) : InOrder lt xs i j := by
  intro a b _ hb
  rw [List.getElem?_eq_none h] at hb
  exact absurd hb (Option.some_ne_none b).symm

theorem getElem?_swap_left {xs : List α} {i j : Nat} (hi : i < xs.length) (hj : j < xs.length) :
    (swap xs i j)[i]? = xs[j]? := by
  rw [getElem?_swap hi hj]
  by_cases h : i = j
  · rw [if_pos h, h]
  · rw [if_neg h, if_pos rfl]

theorem getElem?_swap_right {xs : List α} {i j : Nat} (hi : i < xs.length) (hj : j < xs.length) :
    (swap xs i j)[j]? = xs[i]? := by
  rw [getElem?_swap hi hj, if_pos rfl]

theorem getElem?_swap_other {xs : List α} {i j k : Nat} (hi : i < xs.length) (hj : j < xs.length)
    (hki : k ≠ i) (hkj : k ≠ j) : (swap xs i j)[k]? = xs[k]? := by
  rw [getElem?_swap hi hj, if_neg hkj, if_neg hki]

/-- The item moves up past a larger parent. -/
theorem Rising.up (w : WeakOrder lt) {start : Nat} {xs : List α} {pos par : Nat} (h : Rising lt start xs pos)
    (hpar : start ≤ par) (hchild : IsChild pos par) {item parent : α} (hitem : xs[pos]? = some item)
    (hparent : xs[par]? = some parent) (hlt : lt item parent = true) : Rising lt start (swap xs pos par) par := by
  have hne : pos ≠ par := by unfold IsChild at hchild; omega
  have hpos := (List.getElem?_eq_some_iff.mp hitem).1
  have hlen := (List.getElem?_eq_some_iff.mp hparent).1
  have hleft := getElem?_swap_left hpos hlen
  have hright := getElem?_swap_right hpos hlen
  have hother {k : Nat} (hk : k ≠ pos) (hk' : k ≠ par) := getElem?_swap_other hpos hlen hk hk'
  have hswap : InOrder lt xs pos par := inOrder_of_lt w hitem hparent hlt
  refine ⟨⟨fun p c hp hc hppar hcpar => ?_, fun g c hg hgpar hc => ?_⟩, fun c hc => ?_⟩
  · have hcpos : c ≠ pos := by
      rintro rfl
      unfold IsChild at hc hchild
      omega
    by_cases hppos : p = pos
    · subst hppos
      exact (h.grand par c hpar hchild hc).congr hleft (hother hcpos hcpar)
    · exact (h.off p c hp hc hppos hcpos).congr (hother hppos hppar) (hother hcpos hcpar)
  · have hgpar' : g ≠ par := by unfold IsChild at hgpar; omega
    have hgpos : g ≠ pos := by unfold IsChild at hgpar hchild; omega
    have hgp := h.off g par hg hgpar hgpos hne.symm
    by_cases hcpos : c = pos
    · subst hcpos
      exact hgp.congr (hother hgpos hgpar') hleft
    · have hcpar : c ≠ par := by unfold IsChild at hc; omega
      exact (hgp.trans w (h.off par c hpar hc hne.symm hcpos) hlen).congr (hother hgpos hgpar') (hother hcpos hcpar)
  · by_cases hcpos : c = pos
    · subst hcpos
      exact hswap.congr hright hleft
    · have hcpar : c ≠ par := by unfold IsChild at hc; omega
      exact (hswap.trans w (h.off par c hpar hc hne.symm hcpos) hlen).congr hright (hother hcpos hcpar)

/-- With the last pair in order nothing is left out of order. -/
theorem Rising.heap {start : Nat} {xs : List α} {pos : Nat} (h : Rising lt start xs pos)
    (hlast : ∀ p, start ≤ p → IsChild pos p → InOrder lt xs p pos) : HeapFrom lt start xs := by
  intro p c hp hc
  by_cases hcpos : c = pos
  · subst hcpos
    exact hlast p hp hc
  · by_cases hppos : p = pos
    · subst hppos
      exact h.below c hc
    · exact h.off p c hp hc hppos hcpos

theorem siftdown_heap (w : WeakOrder lt) {start : Nat} (fuel : Nat) {xs : List α} {pos : Nat}
    (h : Rising lt start xs pos) (hbelow : Below start pos) (hfuel : pos ≤ fuel) :
    HeapFrom lt start (siftdown lt start fuel xs pos) := by
  induction fuel generalizing xs pos with
  | zero =>
      refine h.heap fun p hp hc => ?_
      unfold IsChild at hc
      omega
  | succ fuel ih =>
      rw [siftdown]
      split
      next hlt =>
        have hchild : IsChild pos ((pos - 1) / 2) := by unfold IsChild; omega
        have hparent := hbelow.parent hlt
        have huniq {p : Nat} (hc : IsChild pos p) : p = (pos - 1) / 2 := by unfold IsChild at hc; omega
        dsimp only
        split
        next item parent hitem hpar =>
          split
          next hless => exact ih (h.up w hparent.le hchild hitem hpar hless) hparent (by omega)
          next hless =>
            refine h.heap fun p _ hc => ?_
            rw [huniq hc]
            exact inOrder_of_not_lt hpar hitem (Bool.not_eq_true _ ▸ hless)
        next hnone =>
          refine h.heap fun p _ hc a b ha hb => ?_
          rw [huniq hc] at ha
          exact absurd ha fun ha => hnone b a hb ha
      next hge =>
        refine h.heap fun p hp hc => ?_
        unfold IsChild at hc
        omega

/-- The chosen child exists and is not after its sibling. -/
theorem smallerChild_spec (w : WeakOrder lt) {xs : List α} {pos child : Nat}
    (h : smallerChild lt xs pos = some child) : IsChild child pos ∧ child < xs.length ∧
      ∀ c, IsChild c pos → InOrder lt xs child c := by
  have hsame (i : Nat) {a : α} (ha : xs[i]? = some a) : InOrder lt xs i i := inOrder_of_not_lt ha ha (w.irrefl a)
  rw [smallerChild] at h
  split at h
  next left right hleft hright =>
    have hll := (List.getElem?_eq_some_iff.mp hleft).1
    have hrl := (List.getElem?_eq_some_iff.mp hright).1
    split at h
    next hlt =>
      obtain rfl := Option.some.inj h
      refine ⟨Or.inl rfl, hll, ?_⟩
      rintro c (rfl | rfl)
      · exact hsame _ hleft
      · exact inOrder_of_lt w hleft hright hlt
    next hlt =>
      obtain rfl := Option.some.inj h
      refine ⟨Or.inr rfl, hrl, ?_⟩
      rintro c (rfl | rfl)
      · exact inOrder_of_not_lt hright hleft (Bool.not_eq_true _ ▸ hlt)
      · exact hsame _ hright
  next left hleft hright =>
    obtain rfl := Option.some.inj h
    refine ⟨Or.inl rfl, (List.getElem?_eq_some_iff.mp hleft).1, ?_⟩
    rintro c (rfl | rfl)
    · exact hsame _ hleft
    · exact inOrder_of_end (List.getElem?_eq_none_iff.mp hright)
  next => exact absurd h (Option.some_ne_none child).symm

theorem smallerChild_none {xs : List α} {pos : Nat} (h : smallerChild lt xs pos = none) : xs.length ≤ 2 * pos + 1 := by
  rw [smallerChild] at h
  split at h
  · split at h <;> exact absurd h (Option.some_ne_none _)
  · exact absurd h (Option.some_ne_none _)
  next hnone => exact List.getElem?_eq_none_iff.mp hnone

/-- The hole moves down to the smaller child. -/
theorem Hole.down (w : WeakOrder lt) {start : Nat} {xs : List α} {pos child : Nat} (h : Hole lt start xs pos)
    (hpos : start ≤ pos) (hsmall : smallerChild lt xs pos = some child) : Hole lt start (swap xs pos child) child := by
  obtain ⟨hchild, hclen, hleast⟩ := smallerChild_spec w hsmall
  have hlt : pos < child := by unfold IsChild at hchild; omega
  have hplen : pos < xs.length := Nat.lt_trans hlt hclen
  have hleft := getElem?_swap_left hplen hclen
  have hright := getElem?_swap_right hplen hclen
  have hother {k : Nat} (hk : k ≠ pos) (hk' : k ≠ child) := getElem?_swap_other hplen hclen hk hk'
  refine ⟨fun p c hp hc hpchild hcchild => ?_, fun g c hg hgchild hc => ?_⟩
  · by_cases hppos : p = pos
    · subst hppos
      have hcpos : c ≠ p := by unfold IsChild at hc; omega
      exact (hleast c hc).congr hleft (hother hcpos hcchild)
    · by_cases hcpos : c = pos
      · subst hcpos
        exact (h.grand p child hp hc hchild).congr (hother hppos hpchild) hleft
      · exact (h.off p c hp hc hppos hcpos).congr (hother hppos hpchild) (hother hcpos hcchild)
  · have hgpos : g = pos := by unfold IsChild at hgchild hchild; omega
    subst hgpos
    have hcg : c ≠ g := by unfold IsChild at hc; omega
    have hcc : c ≠ child := by unfold IsChild at hc; omega
    exact (h.off child c (Nat.le_trans hpos (Nat.le_of_lt hlt)) hc (Nat.ne_of_gt hlt) hcg).congr hleft (hother hcg hcc)

theorem sink_hole (w : WeakOrder lt) {start : Nat} (fuel : Nat) {xs : List α} {pos : Nat} (h : Hole lt start xs pos)
    (hbelow : Below start pos) (hfuel : xs.length ≤ pos + fuel) :
    Rising lt start (sink lt fuel xs pos).1 (sink lt fuel xs pos).2 ∧ Below start (sink lt fuel xs pos).2 ∧
      ((sink lt fuel xs pos).2 = pos ∨ (sink lt fuel xs pos).2 < xs.length) := by
  induction fuel generalizing xs pos with
  | zero =>
      rw [sink]
      refine ⟨⟨h, fun c hc => inOrder_of_end ?_⟩, hbelow, Or.inl rfl⟩
      dsimp only
      unfold IsChild at hc
      omega
  | succ fuel ih =>
      rw [sink]
      split
      next child hsmall =>
        obtain ⟨hchild, hclen, _⟩ := smallerChild_spec w hsmall
        have hlt : pos < child := by unfold IsChild at hchild; omega
        have hlen := (swap_perm xs pos child).length_eq
        obtain ⟨hrise, hleaf, hin⟩ := ih (h.down w hbelow.le hsmall) (hbelow.child hchild) (by omega)
        exact ⟨hrise, hleaf, Or.inr (by omega)⟩
      next hsmall =>
        refine ⟨⟨h, fun c hc => inOrder_of_end ?_⟩, hbelow, Or.inl rfl⟩
        have hend := smallerChild_none hsmall
        dsimp only
        unfold IsChild at hc
        omega

theorem siftup_heap (w : WeakOrder lt) {xs : List α} {pos : Nat} (h : HeapFrom lt (pos + 1) xs)
    (hpos : pos < xs.length) : HeapFrom lt pos (siftup lt xs pos) := by
  have hhole : Hole lt pos xs pos := by
    refine ⟨fun p c hp hc hne _ => h p c (by omega) hc, fun g c hg hgpos _ => ?_⟩
    unfold IsChild at hgpos
    omega
  obtain ⟨hrise, hbelow, hin⟩ := sink_hole w xs.length hhole .self (by omega)
  have hlen := (sink_perm lt xs.length xs pos).length_eq
  rw [siftup]
  exact siftdown_heap w _ hrise hbelow (by omega)

theorem heappush_heap (w : WeakOrder lt) {xs : List α} (h : HeapFrom lt 0 xs) (item : α) :
    HeapFrom lt 0 (heappush lt xs item) := by
  have hold {i : Nat} (hi : i ≠ xs.length) : (xs ++ [item])[i]? = xs[i]? := by
    rcases Nat.lt_or_gt_of_ne hi with hlt | hgt
    · exact List.getElem?_append_left hlt
    · rw [List.getElem?_eq_none (by rw [List.length_append, List.length_singleton]; omega),
        List.getElem?_eq_none (Nat.le_of_lt hgt)]
  have hend : (xs ++ [item]).length = xs.length + 1 := by rw [List.length_append, List.length_singleton]
  have hrise : Rising lt 0 (xs ++ [item]) xs.length := by
    refine ⟨⟨fun p c hp hc hpne hcne => ?_, fun g c _ _ hc => ?_⟩, fun c hc => ?_⟩
    · exact (h p c hp hc).congr (hold hpne) (hold hcne)
    · refine inOrder_of_end ?_
      unfold IsChild at hc
      omega
    · refine inOrder_of_end ?_
      unfold IsChild at hc
      omega
  exact siftdown_heap w _ hrise (below_zero _) (by omega)

theorem heap_root (w : WeakOrder lt) {xs : List α} (h : HeapFrom lt 0 xs) (i : Nat) (hi : i < xs.length) :
    InOrder lt xs 0 i := by
  induction i using Nat.strongRecOn with
  | ind i ih =>
      rcases Nat.eq_zero_or_pos i with rfl | hpos
      · intro a b ha hb
        obtain rfl := Option.some.inj (ha.symm.trans hb)
        exact w.irrefl a
      · have hchild : IsChild i ((i - 1) / 2) := by unfold IsChild; omega
        exact (ih ((i - 1) / 2) (by omega) (by omega)).trans w (h _ i (Nat.zero_le _) hchild) (by omega)

/-- A pop takes a first item and leaves a heap. -/
theorem heappop_heap (w : WeakOrder lt) {xs ys : List α} {item : α} (h : HeapFrom lt 0 xs)
    (hpop : heappop lt xs = some (item, ys)) : HeapFrom lt 0 ys ∧ ∀ other ∈ xs, lt other item = false := by
  cases xs with
  | nil => exact absurd hpop (Option.some_ne_none _).symm
  | cons x rest =>
      have hfirst : ∀ other ∈ x :: rest, lt other x = false := by
        intro other hother
        obtain ⟨i, hi, hget⟩ := List.mem_iff_getElem.mp hother
        exact heap_root w h i hi x other rfl (hget ▸ List.getElem?_eq_getElem hi)
      rw [heappop] at hpop
      cases hlast : rest.getLast? with
      | none =>
          rw [hlast] at hpop
          obtain ⟨rfl, rfl⟩ := Prod.mk.inj (Option.some.inj hpop)
          exact ⟨fun p c _ hc => inOrder_of_end (Nat.zero_le c), hfirst⟩
      | some lastelt =>
          rw [hlast] at hpop
          obtain ⟨rfl, rfl⟩ := Prod.mk.inj (Option.some.inj hpop)
          refine ⟨siftup_heap w (fun p c hp hc a b ha hb => ?_) (Nat.succ_pos _), hfirst⟩
          have hkept {i : Nat} {v : α} (hi : 0 < i) (hv : (lastelt :: rest.dropLast)[i]? = some v) :
              (x :: rest)[i]? = some v := by
            obtain ⟨j, rfl⟩ := Nat.exists_eq_add_of_lt hi
            rw [Nat.zero_add, List.getElem?_cons_succ] at hv ⊢
            obtain ⟨hj, rfl⟩ := List.getElem?_eq_some_iff.mp hv
            rw [List.getElem_dropLast]
            exact List.getElem?_eq_getElem _
          exact h p c (Nat.zero_le p) hc a b (hkept (by omega) ha) (hkept (by unfold IsChild at hc; omega) hb)

theorem heapify_heap (w : WeakOrder lt) (xs : List α) : HeapFrom lt 0 (heapify lt xs) := by
  have hfold (n : Nat) (hn : n ≤ xs.length) (ys : List α) (hlen : ys.length = xs.length) (h : HeapFrom lt n ys) :
      HeapFrom lt 0 ((List.range n).reverse.foldl (siftup lt) ys) := by
    induction n generalizing ys with
    | zero => exact h
    | succ n ih =>
        rw [List.range_succ, List.reverse_append, List.reverse_singleton, List.singleton_append, List.foldl_cons]
        have hsift := (siftup_perm lt ys n).length_eq
        exact ih (by omega) _ (hsift.trans hlen) (siftup_heap w h (by omega))
  refine hfold (xs.length / 2) (Nat.div_le_self _ 2) xs rfl fun p c hp hc => inOrder_of_end ?_
  unfold IsChild at hc
  omega

theorem heappushAll_heap (w : WeakOrder lt) {xs : List α} (h : HeapFrom lt 0 xs) (items : List α) :
    HeapFrom lt 0 (heappushAll lt xs items) := by
  rw [heappushAll]
  induction items generalizing xs with
  | nil => exact h
  | cons item items ih => exact ih (heappush_heap w h item)

end Blockchecks.HeapOrder
