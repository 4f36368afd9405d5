import Blockchecks.Columns
import Blockchecks.OrderedDict
import Blockchecks.StrategyText

namespace Blockchecks.RoundRobin

open Columns OrderedDict StrategyText

abbrev Groups := Dict String (List StrategyItem)

/-- The state of a round: what is out, the strategies of that, and whether the
round has found an item. -/
structure Round where
  out : List StrategyItem
  seenOut : Finset String
  advanced : Bool

namespace Round

def start : Round := ⟨[], ∅, false⟩

def take (r : Round) (it : StrategyItem) : Round :=
  if it.strategy ∈ r.seenOut then { r with advanced := true }
  else ⟨r.out ++ [it], insert it.strategy r.seenOut, true⟩

/-- One pass over the families, up to the one that reaches the cap. -/
def pass (groups : Groups) (cap : Int) (idx : Nat) : List String → Round → Round
  | [], r => r
  | t :: order, r => match ((groups.get? t).getD [])[idx]? with
    | none => pass groups cap idx order r
    | some it => if cap ≤ (r.take it).out.length then r.take it else pass groups cap idx order (r.take it)

end Round

/-- The loop from an index on, unless the fuel runs out. -/
def rounds (groups : Groups) (cap : Int) : Nat → Nat → Round → Option (List StrategyItem)
  | 0, _, _ => none
  | fuel + 1, idx, r =>
      if cap ≤ r.out.length then some r.out
      else
        let r := Round.pass groups cap idx groups.keys { r with advanced := false }
        if r.advanced then rounds groups cap fuel (idx + 1) r else some r.out

def roundRobin (fuel : Nat) (groups : Groups) (cap : Int) : Option (List StrategyItem) :=
  rounds groups cap fuel 0 .start

/-- The items read so far have been reduced to the first of each strategy. -/
structure Reading (items : List StrategyItem) (r : Round) : Prop where
  out : r.out = firsts StrategyItem.strategy items
  seen : r.seenOut = (items.map StrategyItem.strategy).toFinset

/-- Of some items a beginning has been read, and all of them unless the cap was
reached. -/
structure Progress (cap : Int) (items : List StrategyItem) (r : Round) : Prop where
  read : ∃ read, read <+: items ∧ Reading read r ∧ ((r.out.length : Int) < cap → read = items)
  bounded : (r.out.length : Int) ≤ cap

variable {groups : Groups} {cap : Int} {idx : Nat} {items : List StrategyItem} {r : Round}

theorem start_reading : Reading [] .start := ⟨rfl, rfl⟩

theorem Reading.take (h : Reading items r) (it : StrategyItem) : Reading (items ++ [it]) (r.take it) := by
  have hseen : it.strategy ∈ r.seenOut ↔ it.strategy ∈ items.map StrategyItem.strategy := by
    rw [h.seen, List.mem_toFinset]
  have hset : ((items ++ [it]).map StrategyItem.strategy).toFinset = insert it.strategy r.seenOut := by
    rw [h.seen, List.map_append, List.toFinset_append, Finset.union_comm]
    rfl
  constructor
  · rw [firsts_concat, Round.take]
    by_cases hmem : it.strategy ∈ r.seenOut
    · rw [if_pos hmem, if_pos (hseen.mp hmem)]
      exact h.out
    · rw [if_neg hmem, if_neg (fun hs => hmem (hseen.mpr hs)), ← h.out]
  · rw [hset, Round.take]
    split
    next hmem => exact (Finset.insert_eq_of_mem hmem).symm
    next => rfl

theorem length_take (r : Round) (it : StrategyItem) : (r.take it).out.length ≤ r.out.length + 1 := by
  rw [Round.take]
  split
  next => exact Nat.le_succ _
  next => exact (List.length_append).le

theorem advanced_take (r : Round) (it : StrategyItem) : (r.take it).advanced = true := by
  rw [Round.take]
  split <;> rfl

theorem Reading.progress (h : Reading items r) (hbounded : (r.out.length : Int) ≤ cap) : Progress cap items r :=
  ⟨⟨items, List.prefix_rfl, h, fun _ => rfl⟩, hbounded⟩

/-- The items that a pass over some families comes to. -/
def passItems (groups : Groups) (idx : Nat) (order : List String) : List StrategyItem :=
  order.filterMap (fun t => ((groups.get? t).getD [])[idx]?)

theorem pass_progress (groups : Groups) (idx : Nat) (h : Reading items r) (hlt : (r.out.length : Int) < cap)
    (order : List String) :
    Progress cap (items ++ passItems groups idx order) (r.pass groups cap idx order) := by
  induction order generalizing items r with
  | nil =>
      rw [passItems, List.filterMap_nil, List.append_nil, Round.pass]
      exact h.progress hlt.le
  | cons t order ih =>
      rw [passItems, List.filterMap_cons, Round.pass]
      cases hit : ((groups.get? t).getD [])[idx]? with
      | none => exact ih h hlt
      | some it =>
          have hlength := length_take r it
          have hread := h.take it
          rw [List.append_cons]
          by_cases hcap : cap ≤ (r.take it).out.length
          · simp only [if_pos hcap]
            exact ⟨⟨items ++ [it], List.prefix_append _ _, hread, fun hless => absurd hcap (Int.not_le.mpr hless)⟩, by omega⟩
          · simp only [if_neg hcap]
            exact ih hread (by omega)

theorem advanced_pass (groups : Groups) (cap : Int) (idx : Nat) (r : Round) (order : List String) :
    (r.pass groups cap idx order).advanced = true ↔ r.advanced = true ∨ passItems groups idx order ≠ [] := by
  induction order generalizing r with
  | nil => simp [passItems, Round.pass]
  | cons t order ih =>
      rw [passItems, List.filterMap_cons, Round.pass]
      cases hit : ((groups.get? t).getD [])[idx]? with
      | none => exact ih r
      | some it =>
          have htake := advanced_take r it
          refine ⟨fun _ => .inr (List.cons_ne_nil _ _), fun _ => ?_⟩
          by_cases hcap : cap ≤ (r.take it).out.length
          · simp only [if_pos hcap]
            exact htake
          · simp only [if_neg hcap]
            exact (ih (r.take it)).mpr (.inl htake)

theorem passItems_keys (groups : Groups) (idx : Nat) : passItems groups idx groups.keys = column groups.values idx := by
  rw [passItems, column, Dict.keys, Dict.values, List.filterMap_map, List.filterMap_map]
  refine List.filterMap_congr (fun e he => ?_)
  have hget : groups.get? e.1 = some e.2 := (groups.get?_eq_some_iff e.1 e.2).mpr he
  simp only [Function.comp_apply, hget, Option.getD_some]

theorem Progress.full (h : Progress cap items r) (hcap : cap ≤ r.out.length) {total : List StrategyItem}
    (htotal : items <+: total) : r.out = (firsts StrategyItem.strategy total).take cap.toNat := by
  obtain ⟨read, hread, hreading, -⟩ := h.read
  obtain ⟨rest, rfl⟩ := hread.trans htotal
  have hlength : cap.toNat = r.out.length := by
    have hbounded := h.bounded
    omega
  rw [hlength, hreading.out]
  exact List.prefix_iff_eq_take.mp (firsts_begins read rest)

theorem Progress.all (h : Progress cap items r) (hlt : (r.out.length : Int) < cap) : Reading items r := by
  obtain ⟨read, -, hreading, hall⟩ := h.read
  rwa [hall hlt] at hreading

theorem Progress.result (h : Progress cap items r) : r.out = (firsts StrategyItem.strategy items).take cap.toNat := by
  by_cases hcap : cap ≤ r.out.length
  · exact h.full hcap List.prefix_rfl
  · rw [← (h.all (Int.not_le.mp hcap)).out, List.take_of_length_le (by omega)]

/-- Each round that finds an item goes to the next column, so one round more than
there are columns left is enough. -/
theorem rounds_eq {fuel : Nat} (h : Progress cap (firstColumns groups.values idx) r)
    (hidx : idx ≤ longest groups.values) (hfuel : longest groups.values < idx + fuel) :
    rounds groups cap fuel idx r =
      some ((firsts StrategyItem.strategy (columns groups.values)).take cap.toNat) := by
  induction fuel generalizing idx r with
  | zero => omega
  | succ fuel ih =>
      rw [rounds]
      by_cases hcap : cap ≤ r.out.length
      · rw [if_pos hcap, h.full hcap (firstColumns_begins groups.values idx)]
      · rw [if_neg hcap]
        have hlt : (r.out.length : Int) < cap := Int.not_le.mp hcap
        have hreading := h.all hlt
        have hfresh : Reading (firstColumns groups.values idx) { r with advanced := false } :=
          ⟨hreading.out, hreading.seen⟩
        have hpass := pass_progress groups idx hfresh hlt groups.keys
        have hadvanced := advanced_pass groups cap idx { r with advanced := false } groups.keys
        rw [passItems_keys, ← firstColumns_succ] at hpass
        rw [passItems_keys, or_iff_right Bool.false_ne_true, Ne, column_eq_nil_iff, Nat.not_le] at hadvanced
        dsimp only
        split
        next hmore =>
          have hnext := hadvanced.mp hmore
          exact ih hpass hnext (by omega)
        next hdone =>
          have hend : longest groups.values ≤ idx := Nat.not_lt.mp (fun hnext => hdone (hadvanced.mpr hnext))
          rw [hpass.result, firstColumns_of_longest_le (hend.trans (Nat.le_succ idx))]

theorem roundRobin_eq (groups : Groups) (cap : Int) (spare : Nat) :
    roundRobin (longest groups.values + 1 + spare) groups cap =
      some ((firsts StrategyItem.strategy (columns groups.values)).take cap.toNat) := by
  rcases Int.le_total 0 cap with hcap | hcap
  · exact rounds_eq (start_reading.progress hcap) (Nat.zero_le _) (by omega)
  · rw [roundRobin, Nat.add_right_comm, rounds]
    have hstart : cap ≤ Round.start.out.length := hcap
    rw [if_pos hstart, Int.toNat_of_nonpos hcap, List.take_zero]
    rfl

/-- The families are read column by column, and the first item of each strategy is
kept, up to the cap. With room for all the strategies none is lost. -/
theorem fairly_interleaved (groups : Groups) (cap : Int) (spare : Nat) :
    ∃ out, roundRobin (longest groups.values + 1 + spare) groups cap = some out ∧
      out = (firsts StrategyItem.strategy (columns groups.values)).take cap.toNat ∧
      (((groups.values.flatten.map StrategyItem.strategy).toFinset.card : Int) ≤ cap →
        ∀ lst ∈ groups.values, ∀ it ∈ lst, it.strategy ∈ out.map StrategyItem.strategy) := by
  refine ⟨_, roundRobin_eq groups cap spare, rfl, fun hcap lst hlst it hit => ?_⟩
  have hset : ((columns groups.values).map StrategyItem.strategy).toFinset =
      (groups.values.flatten.map StrategyItem.strategy).toFinset := by
    ext strategy
    simp only [List.mem_toFinset, List.mem_map, mem_columns, List.mem_flatten]
  have hlength := length_firsts StrategyItem.strategy (columns groups.values)
  rw [hset] at hlength
  rw [List.take_of_length_le (by omega), mem_map_firsts]
  exact List.mem_map_of_mem (mem_columns.mpr ⟨lst, hlst, hit⟩)

end Blockchecks.RoundRobin
