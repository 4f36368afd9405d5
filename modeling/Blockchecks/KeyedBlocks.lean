import Mathlib.Data.List.Forall2
import Mathlib.Algebra.BigOperators.Group.List.Basic
import Mathlib.Algebra.GroupWithZero.Nat

namespace Blockchecks.KeyedBlocks

variable {α : Type} (size : α → Nat) (key : α → Option Nat)

def total (xs : List α) : Nat := (xs.map size).sum

def select (n : Nat) (xs : List α) : List α := xs.filter (fun x => decide (key x = some n))

/-- Keys that are not below a number. -/
def upward (n : Nat) (xs : List α) : List α := xs.filter (fun x => (key x).any (n ≤ ·))

theorem total_cons (x : α) (xs : List α) : total size (x :: xs) = size x + total size xs := rfl

theorem total_append (xs ys : List α) : total size (xs ++ ys) = total size xs + total size ys := by
  rw [total, List.map_append, List.sum_append, total, total]

theorem total_filter_le (p : α → Bool) (xs : List α) :
    total size (xs.filter p) ≤ total size xs := by
  induction xs with
  | nil => exact Nat.le_refl _
  | cons x xs ih =>
      rw [List.filter_cons, total_cons]
      split
      · rw [total_cons]
        omega
      · omega

theorem total_select_upward (n : Nat) (xs : List α) :
    total size (select key n xs) + total size (upward key (n + 1) xs) ≤
      total size (upward key n xs) := by
  induction xs with
  | nil => exact Nat.le_refl _
  | cons x xs ih =>
      simp only [select, upward, List.filter_cons] at ih ⊢
      cases hkey : key x with
      | none => simpa only [reduceCtorEq, decide_false, Bool.false_eq_true, if_false, Option.any_none] using ih
      | some k =>
          rcases Nat.lt_trichotomy k n with hlt | rfl | hgt
          · have h₁ : ¬ n ≤ k := by omega
            have h₂ : ¬ n + 1 ≤ k := by omega
            have h₃ : k ≠ n := by omega
            simp only [Option.some.injEq, h₃, decide_false, Bool.false_eq_true, if_false,
              Option.any_some, h₁, h₂]
            exact ih
          · have h₂ : ¬ k + 1 ≤ k := by omega
            simp only [decide_true, if_true, Option.any_some, h₂, decide_false, Bool.false_eq_true,
              if_false, Nat.le_refl, total_cons]
            omega
          · have h₁ : n ≤ k := by omega
            have h₂ : n + 1 ≤ k := by omega
            have h₃ : k ≠ n := by omega
            simp only [Option.some.injEq, h₃, decide_false, Bool.false_eq_true, if_false,
              Option.any_some, h₁, h₂, decide_true, if_true, total_cons]
            omega

/-- What the keys n, n + 1, … select, one key for each block. -/
def selected (xs : List α) : Nat → List (List α) → Nat
  | _, [] => 0
  | n, _ :: blocks => total size (select key n xs) + selected xs (n + 1) blocks

theorem selected_le (xs : List α) (blocks : List (List α)) (n : Nat) :
    selected size key xs n blocks ≤ total size (upward key n xs) := by
  induction blocks generalizing n with
  | nil => exact Nat.zero_le _
  | cons block blocks ih =>
      have hstep := total_select_upward size key n xs
      have hrest := ih (n + 1)
      rw [selected]
      omega

variable {size key}

/-- A statement about every block and its key. -/
def Each (P : Nat → List α → Prop) (n : Nat) (blocks : List (List α)) : Prop :=
  ∀ i b, blocks[i]? = some b → P (n + i) b

theorem Each.head {P : Nat → List α → Prop} {n : Nat} {b : List α} {blocks : List (List α)}
    (h : Each P n (b :: blocks)) : P n b := h 0 b rfl

theorem Each.tail {P : Nat → List α → Prop} {n : Nat} {b : List α} {blocks : List (List α)}
    (h : Each P n (b :: blocks)) : Each P (n + 1) blocks := by
  intro i c hc
  have hnext := h (i + 1) c hc
  rwa [← Nat.add_assoc, Nat.add_right_comm] at hnext

theorem Each.cons {P : Nat → List α → Prop} {n : Nat} {b : List α} {blocks : List (List α)}
    (hhead : P n b) (htail : Each P (n + 1) blocks) : Each P n (b :: blocks) := by
  intro i c hc
  cases i with
  | zero =>
      obtain rfl : b = c := Option.some.inj hc
      exact hhead
  | succ i =>
      have hnext := htail i c hc
      rwa [Nat.add_right_comm, Nat.add_assoc] at hnext

theorem total_le_selected {xs : List α} {blocks : List (List α)} {n : Nat}
    (hle : Each (fun k b => total size b ≤ total size (select key k xs)) n blocks) :
    total size blocks.flatten ≤ selected size key xs n blocks := by
  induction blocks generalizing n with
  | nil => exact Nat.le_refl _
  | cons block blocks ih =>
      have hhead := hle.head
      have hrest := ih hle.tail
      rw [List.flatten_cons, total_append, selected]
      omega

theorem total_select_eq {xs : List α} {blocks : List (List α)} {n : Nat}
    (hle : Each (fun k b => total size b ≤ total size (select key k xs)) n blocks)
    (hsum : selected size key xs n blocks ≤ total size blocks.flatten) :
    Each (fun k b => total size (select key k xs) = total size b) n blocks := by
  induction blocks generalizing n with
  | nil =>
      intro i b hb
      cases hb
  | cons block blocks ih =>
      have hhead := hle.head
      have hrest := total_le_selected hle.tail
      rw [List.flatten_cons, total_append, selected] at hsum
      exact .cons (by omega) (ih hle.tail (by omega))

def Dominates (size : α → Nat) (key : α → Option Nat) (x y : α) : Prop :=
  (key x = key y ∧ size x = size y) ∨ size y < size x

theorem total_le_of_dominates {xs ys : List α} (h : List.Forall₂ (Dominates size key) xs ys) :
    total size ys ≤ total size xs := by
  induction h with
  | nil => exact Nat.le_refl _
  | cons hxy _ ih =>
      rw [total_cons, total_cons]
      rcases hxy with ⟨_, heq⟩ | hlt
      · omega
      · omega

theorem key_eq_of_dominates {xs ys : List α} (h : List.Forall₂ (Dominates size key) xs ys)
    (hsum : total size xs = total size ys) : xs.map key = ys.map key := by
  induction h with
  | nil => rfl
  | cons hxy htail ih =>
      have hle := total_le_of_dominates htail
      rw [total_cons, total_cons] at hsum
      rcases hxy with ⟨hkey, heq⟩ | hlt
      · rw [List.map_cons, List.map_cons, hkey, ih (by omega)]
      · omega

/-- When every key selects, from all blocks together, things no smaller than
those of its own block, then every key selects its own block. -/
theorem key_of_dominates {blocks : List (List α)} {n : Nat}
    (hdom : Each (fun k b => List.Forall₂ (Dominates size key) (select key k blocks.flatten) b)
      n blocks) : Each (fun k b => ∀ y ∈ b, key y = some k) n blocks := by
  have hle : Each (fun k b => total size b ≤ total size (select key k blocks.flatten)) n blocks :=
    fun i b hb => total_le_of_dominates (hdom i b hb)
  have hsum : selected size key blocks.flatten n blocks ≤ total size blocks.flatten :=
    Nat.le_trans (selected_le size key blocks.flatten blocks n) (total_filter_le size _ _)
  intro i b hb y hy
  have hkeys := key_eq_of_dominates (hdom i b hb) (total_select_eq hle hsum i b hb)
  have hmem : key y ∈ (select key (n + i) blocks.flatten).map key := by
    rw [hkeys]
    exact List.mem_map_of_mem hy
  obtain ⟨x, hx, hxy⟩ := List.mem_map.mp hmem
  rw [← hxy]
  exact of_decide_eq_true (List.mem_filter.mp hx).2

theorem select_eq_self {n : Nat} {b : List α} (h : ∀ y ∈ b, key y = some n) :
    select key n b = b := by
  rw [select, List.filter_eq_self]
  exact fun y hy => decide_eq_true (h y hy)

theorem select_eq_nil {n : Nat} {b : List α} (h : ∀ y ∈ b, key y ≠ some n) :
    select key n b = [] := by
  rw [select, List.filter_eq_nil_iff]
  exact fun y hy => by simpa using h y hy

theorem select_append (n : Nat) (xs ys : List α) :
    select key n (xs ++ ys) = select key n xs ++ select key n ys := List.filter_append ..

theorem key_ne_of_lt {blocks : List (List α)} {n k : Nat} (hk : k < n)
    (h : Each (fun k b => ∀ y ∈ b, key y = some k) n blocks) :
    ∀ y ∈ blocks.flatten, key y ≠ some k := by
  intro y hy
  obtain ⟨b, hb, hyb⟩ := List.mem_flatten.mp hy
  obtain ⟨i, hi⟩ := List.mem_iff_getElem?.mp hb
  rw [h i b hi y hyb, ne_eq, Option.some.injEq]
  omega

/-- With every key in its own block, a key selects its block. -/
theorem select_flatten {blocks : List (List α)} {n : Nat}
    (h : Each (fun k b => ∀ y ∈ b, key y = some k) n blocks) :
    Each (fun k b => select key k blocks.flatten = b) n blocks := by
  induction blocks generalizing n with
  | nil =>
      intro i b hb
      cases hb
  | cons block blocks ih =>
      have hown := select_eq_self h.head
      have hother := select_eq_nil (key_ne_of_lt (Nat.lt_succ_self n) h.tail)
      refine .cons ?_ ?_
      · rw [List.flatten_cons, select_append, hown, hother, List.append_nil]
      · intro i b hb
        have hnone : select key (n + 1 + i) block = [] := by
          refine select_eq_nil (fun y hy => ?_)
          rw [h.head y hy, ne_eq, Option.some.injEq]
          omega
        rw [List.flatten_cons, select_append, hnone, List.nil_append]
        exact ih h.tail i b hb

end Blockchecks.KeyedBlocks
