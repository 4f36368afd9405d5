import Mathlib.Data.Finset.Card

namespace Blockchecks.Columns

section columns

variable {α : Type}

/-- The elements at one place of the rows, for the rows that reach so far. -/
def column (rows : List (List α)) (idx : Nat) : List α := rows.filterMap (fun row => row[idx]?)

/-- The first columns, one after the other. -/
def firstColumns (rows : List (List α)) (n : Nat) : List α := (List.range n).flatMap (column rows)

def longest (rows : List (List α)) : Nat := (rows.map List.length).foldr max 0

/-- The rows read column by column. -/
def columns (rows : List (List α)) : List α := firstColumns rows (longest rows)

variable {rows : List (List α)}

theorem longest_le_iff {n : Nat} : longest rows ≤ n ↔ ∀ row ∈ rows, row.length ≤ n := by
  induction rows with
  | nil => simp [longest]
  | cons row rows ih =>
      rw [List.forall_mem_cons, ← ih]
      exact Nat.max_le

theorem column_eq_nil_iff {idx : Nat} : column rows idx = [] ↔ longest rows ≤ idx := by
  rw [column, List.filterMap_eq_nil_iff, longest_le_iff]
  simp only [List.getElem?_eq_none_iff]

theorem firstColumns_succ (rows : List (List α)) (n : Nat) :
    firstColumns rows (n + 1) = firstColumns rows n ++ column rows n := by
  rw [firstColumns, List.range_succ, List.flatMap_append, List.flatMap_singleton, firstColumns]

/-- Beyond the longest row there is nothing to read. -/
theorem firstColumns_of_longest_le {n : Nat} (h : longest rows ≤ n) : firstColumns rows n = columns rows := by
  induction n, h using Nat.le_induction with
  | base => rfl
  | succ n hn ih => rw [firstColumns_succ, column_eq_nil_iff.mpr hn, List.append_nil, ih]

theorem firstColumns_mono {n m : Nat} (h : n ≤ m) : firstColumns rows n <+: firstColumns rows m := by
  induction m, h using Nat.le_induction with
  | base => exact List.prefix_rfl
  | succ m _ ih =>
      rw [firstColumns_succ]
      exact ih.trans (List.prefix_append _ _)

theorem firstColumns_begins (rows : List (List α)) (n : Nat) : firstColumns rows n <+: columns rows := by
  rcases Nat.le_total (longest rows) n with h | h
  · rw [firstColumns_of_longest_le h]
  · exact firstColumns_mono h

theorem mem_columns {a : α} : a ∈ columns rows ↔ ∃ row ∈ rows, a ∈ row := by
  simp only [columns, firstColumns, column, List.mem_flatMap, List.mem_range, List.mem_filterMap]
  constructor
  · rintro ⟨idx, -, row, hrow, ha⟩
    exact ⟨row, hrow, List.mem_of_getElem? ha⟩
  · rintro ⟨row, hrow, ha⟩
    obtain ⟨idx, hidx, hget⟩ := List.mem_iff_getElem.mp ha
    have hlongest := longest_le_iff.mp (Nat.le_refl _) row hrow
    exact ⟨idx, Nat.lt_of_lt_of_le hidx hlongest, row, hrow, List.getElem?_eq_some_iff.mpr ⟨hidx, hget⟩⟩

end columns

section firsts

variable {α β : Type} [DecidableEq β]

/-- The first element of each key. -/
def firsts (key : α → β) : List α → List α
  | [] => []
  | a :: l => a :: (firsts key l).filter (fun b => key b ≠ key a)

variable {key : α → β}

theorem firsts_concat (l : List α) (a : α) :
    firsts key (l ++ [a]) = if key a ∈ l.map key then firsts key l else firsts key l ++ [a] := by
  induction l with
  | nil => rfl
  | cons b l ih =>
      rw [List.cons_append, firsts, ih, firsts, List.map_cons]
      by_cases hb : key a = key b
      · rw [if_pos (List.mem_cons.mpr (.inl hb))]
        split
        · rfl
        · rw [List.filter_append, List.filter_singleton, decide_eq_false (not_not_intro hb), cond_false,
            List.append_nil]
      · by_cases hl : key a ∈ l.map key
        · rw [if_pos hl, if_pos (List.mem_cons_of_mem _ hl)]
        · rw [if_neg hl, if_neg (fun h => (List.mem_cons.mp h).elim hb hl), List.filter_append, List.filter_singleton,
            decide_eq_true hb, cond_true, List.cons_append]

theorem firsts_begins (l m : List α) : firsts key l <+: firsts key (l ++ m) := by
  induction m generalizing l with
  | nil => rw [List.append_nil]
  | cons a m ih =>
      have hstep : firsts key l <+: firsts key (l ++ [a]) := by
        rw [firsts_concat]
        split
        · exact List.prefix_rfl
        · exact List.prefix_append _ _
      rw [List.append_cons]
      exact hstep.trans (ih (l ++ [a]))

theorem mem_map_firsts {k : β} {l : List α} : k ∈ (firsts key l).map key ↔ k ∈ l.map key := by
  induction l with
  | nil => rfl
  | cons a l ih =>
      rw [firsts, List.map_cons, List.map_cons, List.mem_cons, List.mem_cons, ← ih]
      by_cases hk : k = key a
      · exact ⟨fun _ => .inl hk, fun _ => .inl hk⟩
      · rw [or_iff_right hk, or_iff_right hk, List.mem_map, List.mem_map]
        constructor
        · rintro ⟨b, hb, rfl⟩
          exact ⟨b, List.mem_of_mem_filter hb, rfl⟩
        · rintro ⟨b, hb, rfl⟩
          exact ⟨b, List.mem_filter.mpr ⟨hb, decide_eq_true hk⟩, rfl⟩

theorem nodup_map_firsts (key : α → β) (l : List α) : ((firsts key l).map key).Nodup := by
  induction l with
  | nil => exact List.nodup_nil
  | cons a l ih =>
      rw [firsts, List.map_cons, List.nodup_cons]
      refine ⟨fun hmem => ?_, ih.sublist (List.filter_sublist.map key)⟩
      obtain ⟨b, hb, hkey⟩ := List.mem_map.mp hmem
      exact of_decide_eq_true (List.mem_filter.mp hb).2 hkey

theorem length_firsts (key : α → β) (l : List α) : (firsts key l).length = (l.map key).toFinset.card := by
  have hset : (l.map key).toFinset = ((firsts key l).map key).toFinset := by
    ext k
    rw [List.mem_toFinset, List.mem_toFinset, mem_map_firsts]
  rw [hset, List.toFinset_card_of_nodup (nodup_map_firsts key l), List.length_map]

end firsts

end Blockchecks.Columns
