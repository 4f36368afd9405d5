import Mathlib.Logic.Function.Basic

namespace Blockchecks.Locks

variable {Task Pc : Type}

/-- A lock is held exactly by the task whose place in its code is under it. -/
def Guards (p : Pc → Prop) (holder : Option Task) (pcs : Task → Pc) : Prop :=
  ∀ task, holder = some task ↔ p (pcs task)

def placeOf (idle : Pc) (holder : Option Task) (pcs : Task → Pc) : Pc :=
  match holder with
  | some task => pcs task
  | none => idle

variable {p : Pc → Prop} {holder : Option Task} {pcs : Task → Pc} {task : Task} {pc idle : Pc}

theorem placeOf_of_holder (h : holder = some task) : placeOf idle holder pcs = pcs task := by
  rw [h]
  rfl

theorem Guards.place_eq (h : Guards p holder pcs) (ht : p (pcs task)) :
    placeOf idle holder pcs = pcs task :=
  placeOf_of_holder ((h task).mpr ht)

/-- Under the lock at most one task is at work. -/
theorem Guards.unique {other : Task} (h : Guards p holder pcs) (ht : p (pcs task))
    (ho : p (pcs other)) : other = task :=
  Option.some.inj (((h other).mpr ho).symm.trans ((h task).mpr ht))

theorem Guards.not_of_free (h : Guards p none pcs) (task : Task) : ¬ p (pcs task) :=
  fun ht => absurd ((h task).mpr ht) (Option.some_ne_none task).symm

theorem Guards.place_cases (h : Guards p holder pcs) (idle : Pc) :
    (holder = none ∧ placeOf idle holder pcs = idle) ∨
      ∃ task, holder = some task ∧ p (pcs task) ∧ placeOf idle holder pcs = pcs task := by
  cases holder with
  | none => exact Or.inl ⟨rfl, rfl⟩
  | some task => exact Or.inr ⟨task, rfl, (h task).mp rfl, rfl⟩

variable [DecidableEq Task]

theorem Guards.move (h : Guards p holder pcs) (hpc : p pc ↔ p (pcs task)) :
    Guards p holder (Function.update pcs task pc) := by
  intro other
  by_cases ho : other = task
  · rw [ho, Function.update_self, hpc]
    exact h task
  · rw [Function.update_of_ne ho]
    exact h other

theorem Guards.acquire (h : Guards p none pcs) (hpc : p pc) :
    Guards p (some task) (Function.update pcs task pc) := by
  intro other
  by_cases ho : other = task
  · rw [ho, Function.update_self]
    exact iff_of_true rfl hpc
  · rw [Function.update_of_ne ho]
    exact iff_of_false (fun he => ho (Option.some.inj he).symm) (h.not_of_free other)

theorem Guards.release (h : Guards p holder pcs) (ht : p (pcs task)) (hpc : ¬ p pc) :
    Guards p none (Function.update pcs task pc) := by
  intro other
  by_cases ho : other = task
  · rw [ho, Function.update_self]
    exact iff_of_false (Option.some_ne_none task).symm hpc
  · rw [Function.update_of_ne ho]
    exact iff_of_false (Option.some_ne_none other).symm (fun hp => ho (h.unique ht hp))

def leave (holder : Option Task) (task : Task) : Option Task :=
  if holder = some task then none else holder

/-- A task that drops out leaves the lock if it holds it. -/
theorem Guards.leave (h : Guards p holder pcs) (hpc : ¬ p pc) :
    Guards p (leave holder task) (Function.update pcs task pc) := by
  rw [Locks.leave]
  split
  next hholder => exact h.release ((h task).mp hholder) hpc
  next hother => exact h.move (iff_of_false hpc (fun ht => hother ((h task).mpr ht)))

theorem placeOf_acquire : placeOf idle (some task) (Function.update pcs task pc) = pc :=
  Function.update_self ..

theorem placeOf_move_self (h : holder = some task) :
    placeOf idle holder (Function.update pcs task pc) = pc := by
  rw [h]
  exact placeOf_acquire

theorem Guards.place_move_other (h : Guards p holder pcs) (ht : ¬ p (pcs task)) :
    placeOf idle holder (Function.update pcs task pc) = placeOf idle holder pcs := by
  cases holder with
  | none => rfl
  | some other =>
      have ho : p (pcs other) := (h other).mp rfl
      have hne : other ≠ task := fun he => ht (he ▸ ho)
      exact Function.update_of_ne hne pc pcs

end Blockchecks.Locks
