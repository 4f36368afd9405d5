import Mathlib.Data.List.Nodup
import Mathlib.Logic.Function.Basic

namespace Blockchecks.Taps

/-- Methods that anybody may wrap. A slot holds its wrappers, outermost first;
a tap remembers what it found in each slot. -/
structure Slots (Slot Tap : Type) where
  current : Slot → List Tap := fun _ => []
  saved : Tap → Slot → List Tap := fun _ _ => []

variable {Slot Tap : Type}

def Slots.restore (s : Slots Slot Tap) (t : Tap) : Slots Slot Tap :=
  { s with current := s.saved t }

/-- The taps in place are those of the stack, and each has remembered the ones
below it. -/
structure Nested (s : Slots Slot Tap) (stack : List Tap) : Prop where
  current : ∀ slot, s.current slot = stack
  saved : ∀ t rest, t :: rest <:+ stack → ∀ slot, s.saved t slot = rest
  nodup : stack.Nodup

variable {s : Slots Slot Tap} {t : Tap} {stack : List Tap}

theorem nested_nil : Nested ({} : Slots Slot Tap) [] := by
  refine ⟨fun _ => rfl, ?_, List.nodup_nil⟩
  intro t rest h
  cases List.suffix_nil.mp h

theorem Nested.restore (h : Nested s (t :: stack)) : Nested (s.restore t) stack := by
  refine ⟨fun slot => h.saved t stack (List.suffix_refl _) slot, ?_, (List.nodup_cons.mp h.nodup).2⟩
  intro u rest hsuffix
  exact h.saved u rest (hsuffix.trans (List.suffix_cons t stack))

variable [DecidableEq Tap]

def Slots.tap (s : Slots Slot Tap) (t : Tap) : Slots Slot Tap where
  current slot := t :: s.current slot
  saved := Function.update s.saved t s.current

@[simp] theorem tap_current (slot : Slot) : (s.tap t).current slot = t :: s.current slot := rfl

@[simp] theorem tap_saved_self : (s.tap t).saved t = s.current := Function.update_self ..

theorem tap_saved_of_ne {u : Tap} (h : u ≠ t) : (s.tap t).saved u = s.saved u :=
  Function.update_of_ne h ..

theorem Nested.tap (h : Nested s stack) (ht : t ∉ stack) : Nested (s.tap t) (t :: stack) := by
  refine ⟨?_, ?_, List.nodup_cons.mpr ⟨ht, h.nodup⟩⟩
  · intro slot
    rw [tap_current, h.current]
  · intro u rest hsuffix slot
    rcases List.suffix_cons_iff.mp hsuffix with heq | hbelow
    · obtain ⟨rfl, rfl⟩ := List.cons.inj heq
      rw [tap_saved_self, h.current]
    · have hu : u ∈ stack := hbelow.subset List.mem_cons_self
      have hne : u ≠ t := fun he => ht (he ▸ hu)
      rw [tap_saved_of_ne hne]
      exact h.saved u rest hbelow slot

end Blockchecks.Taps
