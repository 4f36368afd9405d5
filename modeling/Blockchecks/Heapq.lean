import Mathlib.Data.List.Perm.Basic

namespace Blockchecks.Heapq

/-! The list algorithms of CPython's heapq. CPython carries the moving item in
a local variable and writes it once; here it is exchanged at every level,
which leaves the same list. -/

variable {α : Type} (lt : α → α → Bool)

/-- Exchange two positions. Positions outside the list leave it as it is. -/
def swap (xs : List α) (i j : Nat) : List α :=
  match xs[i]?, xs[j]? with
  | some a, some b => (xs.set i b).set j a
  | _, _ => xs

/-- The item at pos moves up past larger parents, not above startpos. -/
def siftdown (startpos : Nat) : Nat → List α → Nat → List α
  | 0, xs, _ => xs
  | fuel + 1, xs, pos =>
      if startpos < pos then
        let parentpos := (pos - 1) / 2
        match xs[pos]?, xs[parentpos]? with
        | some newitem, some parent =>
            if lt newitem parent then siftdown startpos fuel (swap xs pos parentpos) parentpos
            else xs
        | _, _ => xs
      else xs

def smallerChild (xs : List α) (pos : Nat) : Option Nat :=
  let childpos := 2 * pos + 1
  match xs[childpos]?, xs[childpos + 1]? with
  | some left, some right => if lt left right then some childpos else some (childpos + 1)
  | some _, none => some childpos
  | none, _ => none

def sink : Nat → List α → Nat → List α × Nat
  | 0, xs, pos => (xs, pos)
  | fuel + 1, xs, pos => match smallerChild lt xs pos with
    | some childpos => sink fuel (swap xs pos childpos) childpos
    | none => (xs, pos)

def siftup (xs : List α) (pos : Nat) : List α :=
  let (ys, leaf) := sink lt xs.length xs pos
  siftdown lt pos ys.length ys leaf

def heappush (xs : List α) (item : α) : List α :=
  siftdown lt 0 (xs.length + 1) (xs ++ [item]) xs.length

def heappop : List α → Option (α × List α)
  | [] => none
  | item :: rest => match rest.getLast? with
    | none => some (item, [])
    | some lastelt => some (item, siftup lt (lastelt :: rest.dropLast) 0)

def heapify (xs : List α) : List α :=
  (List.range (xs.length / 2)).reverse.foldl (siftup lt) xs

theorem swap_perm (xs : List α) (i j : Nat) : (swap xs i j).Perm xs := by
  rw [swap]
  split
  next a b ha hb =>
    obtain ⟨hi, rfl⟩ := List.getElem?_eq_some_iff.mp ha
    obtain ⟨hj, rfl⟩ := List.getElem?_eq_some_iff.mp hb
    exact List.set_set_perm hi hj
  next => exact List.Perm.refl _

theorem siftdown_perm (startpos fuel : Nat) (xs : List α) (pos : Nat) :
    (siftdown lt startpos fuel xs pos).Perm xs := by
  induction fuel generalizing xs pos with
  | zero => exact List.Perm.refl _
  | succ fuel ih =>
      rw [siftdown]
      split
      · dsimp only
        split
        · split
          · exact (ih _ _).trans (swap_perm xs _ _)
          · exact List.Perm.refl _
        · exact List.Perm.refl _
      · exact List.Perm.refl _

theorem sink_perm (fuel : Nat) (xs : List α) (pos : Nat) : (sink lt fuel xs pos).1.Perm xs := by
  induction fuel generalizing xs pos with
  | zero => exact List.Perm.refl _
  | succ fuel ih =>
      rw [sink]
      split
      · exact (ih _ _).trans (swap_perm xs _ _)
      · exact List.Perm.refl _

theorem siftup_perm (xs : List α) (pos : Nat) : (siftup lt xs pos).Perm xs :=
  (siftdown_perm lt pos _ _ _).trans (sink_perm lt _ xs pos)

theorem heappush_perm (xs : List α) (item : α) : (heappush lt xs item).Perm (item :: xs) :=
  (siftdown_perm lt 0 _ _ _).trans (List.perm_append_singleton item xs)

theorem heappop_perm {xs ys : List α} {item : α} (h : heappop lt xs = some (item, ys)) :
    xs.Perm (item :: ys) := by
  cases xs with
  | nil => simp [heappop] at h
  | cons x rest =>
      unfold heappop at h
      cases hl : rest.getLast? with
      | none =>
          simp only [hl, Option.some.injEq, Prod.mk.injEq] at h
          obtain ⟨rfl, rfl⟩ := h
          rw [List.getLast?_eq_none_iff.mp hl]
      | some lastelt =>
          simp only [hl, Option.some.injEq, Prod.mk.injEq] at h
          obtain ⟨rfl, rfl⟩ := h
          have hr : rest.Perm (lastelt :: rest.dropLast) := by
            obtain ⟨pre, rfl⟩ := List.getLast?_eq_some_iff.mp hl
            simp
          exact (hr.trans (siftup_perm lt _ 0).symm).cons x

theorem heappop_eq_none_iff (xs : List α) : heappop lt xs = none ↔ xs = [] := by
  cases xs with
  | nil => simp [heappop]
  | cons x rest =>
      cases hl : rest.getLast? <;> simp [heappop, hl]

theorem heapify_perm (xs : List α) : (heapify lt xs).Perm xs := by
  rw [heapify]
  induction (List.range (xs.length / 2)).reverse generalizing xs with
  | nil => exact List.Perm.refl _
  | cons pos rest ih => exact (ih _).trans (siftup_perm lt xs pos)

def heappushAll (xs : List α) (items : List α) : List α := items.foldl (heappush lt) xs

theorem heappushAll_perm (xs items : List α) : (heappushAll lt xs items).Perm (items ++ xs) := by
  rw [heappushAll]
  induction items generalizing xs with
  | nil => exact List.Perm.refl _
  | cons item items ih =>
      apply (ih _).trans
      apply ((heappush_perm lt xs item).append_left items).trans
      exact List.perm_middle

end Blockchecks.Heapq
