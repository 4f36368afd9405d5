import Mathlib.Data.List.Basic

namespace Blockchecks.SqlLogic

/-- A truth value of SQL. None is NULL. -/
abbrev Truth := Option Bool

def conj : Truth → Truth → Truth
  | some false, _ => some false
  | _, some false => some false
  | some true, some true => some true
  | _, _ => none

def disj : Truth → Truth → Truth
  | some true, _ => some true
  | _, some true => some true
  | some false, some false => some false
  | _, _ => none

def neg (a : Truth) : Truth := a.map not

/-- A comparison with NULL is NULL. -/
def comparison {α : Type} (test : α → α → Bool) : Option α → Option α → Truth
  | some a, some b => some (test a b)
  | _, _ => none

def isNull {α : Type} (a : Option α) : Truth := some a.isNone

def isNotNull {α : Type} (a : Option α) : Truth := some a.isSome

/-- WHERE takes a row only when its condition is true. -/
def holds (a : Truth) : Bool := a == some true

theorem holds_conj (a b : Truth) : holds (conj a b) = (holds a && holds b) := by
  rcases a with _ | _ | _ <;> rcases b with _ | _ | _ <;> rfl

theorem holds_neg {a : Truth} (h : a ≠ none) : holds (neg a) = !holds a := by
  rcases a with _ | _ | _
  · exact absurd rfl h
  · rfl
  · rfl

/-- A NULL behind a conjunct that is false does not get out. -/
theorem conj_guard {a : Bool} {b : Truth} (h : a = true → b ≠ none) : conj (some a) b ≠ none := by
  cases a with
  | false => exact Option.some_ne_none _
  | true =>
      rcases b with _ | _ | _
      · exact absurd rfl (h rfl)
      · exact Option.some_ne_none _
      · exact Option.some_ne_none _

theorem disj_known {a b : Truth} (ha : a ≠ none) (hb : b ≠ none) : disj a b ≠ none := by
  rcases a with _ | _ | _
  · exact absurd rfl ha
  · rcases b with _ | _ | _
    · exact absurd rfl hb
    · exact Option.some_ne_none _
    · exact Option.some_ne_none _
  · exact Option.some_ne_none _

theorem comparison_eq_some {α : Type} [DecidableEq α] (a : Option α) (b : α) :
    holds (comparison (fun x y => decide (x = y)) a (some b)) = decide (a = some b) := by
  cases a with
  | none => rfl
  | some a =>
      by_cases h : a = b <;> simp [comparison, holds, h]

end Blockchecks.SqlLogic
