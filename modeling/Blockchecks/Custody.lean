import Mathlib.Algebra.BigOperators.Group.Finset.Piecewise
import Mathlib.Algebra.Order.BigOperators.Group.Finset
import Mathlib.Algebra.Order.Group.Multiset
import Mathlib.Tactic.Abel

namespace Blockchecks.Custody

open Function

variable {Party Item : Type} [Fintype Party] [DecidableEq Party]

/-- Items are issued to parties, move between them and are settled. -/
structure Ledger (Party Item : Type) where
  issued : Multiset Item
  settled : Multiset Item
  held : Party → Multiset Item

/-- Every issued item is settled or held, and none is counted twice. -/
def Ledger.Balanced (L : Ledger Party Item) : Prop := L.issued = L.settled + ∑ p, L.held p

theorem sum_update (held : Party → Multiset Item) (p : Party) (m : Multiset Item) :
    ∑ q, update held p m q + held p = ∑ q, held q + m := by
  rw [Finset.sum_update_of_mem (Finset.mem_univ p), Finset.sdiff_singleton_eq_erase,
    ← Finset.add_sum_erase Finset.univ held (Finset.mem_univ p)]
  abel

theorem sum_receive (held : Party → Multiset Item) (p : Party) (item : Item) :
    ∑ q, update held p (item ::ₘ held p) q = item ::ₘ ∑ q, held q := by
  have hs := sum_update held p (item ::ₘ held p)
  rw [Multiset.add_cons, ← Multiset.cons_add] at hs
  exact add_right_cancel hs

theorem sum_give {held : Party → Multiset Item} {p : Party} {item : Item} {rest : Multiset Item}
    (hp : held p = item ::ₘ rest) : item ::ₘ ∑ q, update held p rest q = ∑ q, held q := by
  have hs := sum_update held p rest
  rw [hp, Multiset.add_cons, ← Multiset.cons_add] at hs
  exact add_right_cancel hs

theorem Ledger.Balanced.issue {L : Ledger Party Item} (h : L.Balanced) (p : Party) (item : Item) :
    Ledger.Balanced ⟨item ::ₘ L.issued, L.settled, update L.held p (item ::ₘ L.held p)⟩ := by
  rw [Ledger.Balanced] at h ⊢
  rw [sum_receive, Multiset.add_cons, h]

theorem Ledger.Balanced.settle {L : Ledger Party Item} (h : L.Balanced) {p : Party} {item : Item}
    {rest : Multiset Item} (hp : L.held p = item ::ₘ rest) :
    Ledger.Balanced ⟨L.issued, item ::ₘ L.settled, update L.held p rest⟩ := by
  rw [Ledger.Balanced] at h ⊢
  rw [Multiset.cons_add, ← Multiset.add_cons, sum_give hp, h]

theorem Ledger.Balanced.pass {L : Ledger Party Item} (h : L.Balanced) {p q : Party} {item : Item}
    {rest : Multiset Item} (hne : p ≠ q) (hp : L.held p = item ::ₘ rest) :
    Ledger.Balanced ⟨L.issued, L.settled, update (update L.held p rest) q (item ::ₘ L.held q)⟩ := by
  have hq := sum_receive (update L.held p rest) q item
  rw [update_of_ne hne.symm] at hq
  rw [Ledger.Balanced] at h ⊢
  rw [hq, sum_give hp, h]

omit [DecidableEq Party] in
theorem Ledger.Balanced.issued_eq_settled_iff {L : Ledger Party Item} (h : L.Balanced) :
    L.issued = L.settled ↔ ∀ p, L.held p = 0 := by
  rw [h, add_eq_left, Finset.sum_eq_zero_iff]
  simp

end Blockchecks.Custody
