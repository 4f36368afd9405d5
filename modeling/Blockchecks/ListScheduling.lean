import Mathlib.Algebra.BigOperators.Group.List.Basic
import Mathlib.Algebra.Order.BigOperators.Group.List
import Mathlib.Algebra.Order.Monoid.Unbundled.Pow
import Mathlib.Data.Finset.Max
import Mathlib.Data.List.Count

namespace Blockchecks.ListScheduling

section pool

variable {α : Type} [LinearOrder α]

theorem exists_first {free : List α} (h : free ≠ []) : ∃ f ∈ free, ∀ g ∈ free, f ≤ g := by
  obtain ⟨f, hf, hfirst⟩ := Finset.exists_min_image free.toFinset id
    ((List.toFinset_nonempty_iff free).mpr h)
  exact ⟨f, List.mem_toFinset.mp hf, fun g hg => hfirst g (List.mem_toFinset.mpr hg)⟩

theorem exists_last {free : List α} (h : free ≠ []) : ∃ f ∈ free, ∀ g ∈ free, g ≤ f := by
  obtain ⟨f, hf, hlast⟩ := Finset.exists_max_image free.toFinset id
    ((List.toFinset_nonempty_iff free).mpr h)
  exact ⟨f, List.mem_toFinset.mp hf, fun g hg => hlast g (List.mem_toFinset.mpr hg)⟩

variable [AddCommMonoid α]

/-- A pool of workers, given by the times at which each is free, empties its queue: the
worker that is free first takes any task, and the run ends when the last one is free. -/
inductive Drains : List α → List α → α → Prop where
  | done {free : List α} {finish : α} (hfinish : finish ∈ free) (hlast : ∀ f ∈ free, f ≤ finish) :
      Drains free [] finish
  | pick {free tasks : List α} {f d finish : α} (hf : f ∈ free) (hfirst : ∀ g ∈ free, f ≤ g) (hd : d ∈ tasks)
      (rest : Drains ((f + d) :: free.erase f) (tasks.erase d) finish) : Drains free tasks finish

/-- The number of rounds of w workers for n tasks. -/
def waves (n w : Nat) : Nat := (n + w - 1) / w

variable {free tasks : List α} {f d finish C : α} {w q r n : Nat}

theorem waves_full (hw : 0 < w) (q : Nat) : waves (w * q) w = q := by
  rw [waves, Nat.add_sub_assoc hw, Nat.mul_add_div hw, Nat.div_eq_of_lt (Nat.sub_one_lt_of_lt hw), Nat.add_zero]

theorem waves_part {r : Nat} (hr : 0 < r) (hlt : r < w) (q : Nat) : waves (w * q + r) w = q + 1 := by
  have hsum : w * q + r + w - 1 = w * (q + 1) + (r - 1) := by
    rw [Nat.mul_add_one]
    omega
  rw [waves, hsum, Nat.mul_add_div (by omega), Nat.div_eq_of_lt (by omega), Nat.add_zero]

theorem waves_spec (n : Nat) (hw : 0 < w) : waves n w * w < n + w ∧ n ≤ waves n w * w := by
  have hsum := Nat.div_add_mod (n + w - 1) w
  have hlt := Nat.mod_lt (n + w - 1) hw
  rw [waves, Nat.mul_comm]
  omega

theorem waves_le {m : Nat} (hw : 0 < w) (h : n ≤ w * m) : waves n w ≤ m := by
  rw [waves, Nat.div_le_iff_le_mul_add_pred hw]
  omega

/-- A pool with a worker can always go on to the end. -/
theorem exists_drains (h : free ≠ []) : ∃ finish, Drains free tasks finish := by
  induction tasks generalizing free with
  | nil =>
      obtain ⟨finish, hfinish, hlast⟩ := exists_last h
      exact ⟨finish, .done hfinish hlast⟩
  | cons d tasks ih =>
      obtain ⟨f, hf, hfirst⟩ := exists_first h
      obtain ⟨finish, hrest⟩ := ih (List.cons_ne_nil (f + d) (free.erase f))
      refine ⟨finish, .pick hf hfirst List.mem_cons_self ?_⟩
      rw [List.erase_cons_head]
      exact hrest

/-- After q rounds of tasks of at most C each and r tasks more, no more than r workers are
busy beyond the rounds. -/
structure Rounds (w : Nat) (C : α) (q r : Nat) (free : List α) : Prop where
  workers : free.length = w
  bounded : ∀ f ∈ free, f ≤ (q + 1) • C
  busy : free.countP (fun f => decide (q • C < f)) ≤ r

theorem rounds_first (hr : r < w) (h : Rounds w C q r free) (hfirst : ∀ g ∈ free, f ≤ g) : f ≤ q • C := by
  have hlt : free.countP (fun f => decide (q • C < f)) < free.length := by
    rw [h.workers]
    exact Nat.lt_of_le_of_lt h.busy hr
  obtain ⟨g, hg, hidle⟩ : ∃ g ∈ free, ¬ q • C < g := by
    by_contra hall
    push Not at hall
    exact absurd (List.countP_eq_length.mpr fun g hg => decide_eq_true (hall g hg)) (Nat.ne_of_lt hlt)
  exact (hfirst g hg).trans (not_lt.mp hidle)

variable [IsOrderedCancelAddMonoid α]

theorem rounds_start (hC : 0 ≤ C) : Rounds w C 0 0 (List.replicate w 0) where
  workers := List.length_replicate
  bounded f hf := by
    rw [List.eq_of_mem_replicate hf]
    exact nsmul_nonneg hC _
  busy := by
    rw [zero_nsmul, Nat.le_zero, List.countP_eq_zero]
    intro f hf
    rw [List.eq_of_mem_replicate hf, decide_eq_true_eq]
    exact lt_irrefl 0

theorem rounds_pick (hr : r < w) (hd : d ≤ C) (h : Rounds w C q r free) (hf : f ∈ free)
    (hfirst : ∀ g ∈ free, f ≤ g) : Rounds w C q (r + 1) ((f + d) :: free.erase f) where
  workers := by
    rw [List.length_cons, List.length_erase_of_mem hf, h.workers]
    omega
  bounded := by
    refine List.forall_mem_cons.mpr ⟨?_, fun g hg => h.bounded g (List.mem_of_mem_erase hg)⟩
    rw [succ_nsmul]
    exact add_le_add (rounds_first hr h hfirst) hd
  busy := by
    have herase : (free.erase f).countP (fun f => decide (q • C < f)) ≤ r :=
      (List.erase_sublist).countP_le.trans h.busy
    rw [List.countP_cons]
    split
    · exact Nat.succ_le_succ herase
    · exact herase.trans (Nat.le_succ r)

/-- A full round. -/
theorem rounds_next (hC : 0 ≤ C) (h : Rounds w C q w free) : Rounds w C (q + 1) 0 free where
  workers := h.workers
  bounded f hf := (h.bounded f hf).trans (nsmul_le_nsmul_left hC (Nat.le_succ _))
  busy := by
    rw [Nat.le_zero, List.countP_eq_zero]
    intro f hf
    rw [decide_eq_true_eq]
    exact not_lt.mpr (h.bounded f hf)

theorem finish_le_of_rounds (hC : 0 ≤ C) (hd : ∀ d ∈ tasks, d ≤ C) (hr : r < w) (h : Rounds w C q r free)
    (hrun : Drains free tasks finish) : finish ≤ waves (w * q + r + tasks.length) w • C := by
  induction hrun generalizing q r with
  | done hfinish hlast =>
      rw [List.length_nil, Nat.add_zero]
      rcases Nat.eq_zero_or_pos r with rfl | hpos
      · rw [Nat.add_zero, waves_full hr]
        have hidle := List.countP_eq_zero.mp (Nat.le_zero.mp h.busy) _ hfinish
        rw [decide_eq_true_eq] at hidle
        exact not_lt.mp hidle
      · rw [waves_part hpos hr]
        exact h.bounded _ hfinish
  | @pick free tasks f d finish hf hfirst hmem rest ih =>
      have hnext := rounds_pick hr (hd _ hmem) h hf hfirst
      have hlength := List.length_erase_add_one hmem
      rcases Nat.lt_or_eq_of_le (Nat.succ_le_of_lt hr) with hround | hround
      · have hle := ih (fun d hd' => hd d (List.mem_of_mem_erase hd')) hround hnext
        rwa [Nat.succ_eq_add_one, ← Nat.add_assoc, Nat.add_assoc _ 1, Nat.add_comm 1, hlength] at hle
      · rw [Nat.succ_eq_add_one] at hround
        rw [hround] at hnext
        have hle := ih (fun d hd' => hd d (List.mem_of_mem_erase hd')) (Nat.zero_lt_of_lt hr) (rounds_next hC hnext)
        have hsum : w * (q + 1) + 0 + (tasks.erase d).length = w * q + r + tasks.length := by
          rw [Nat.mul_add_one]
          omega
        exact hsum ▸ hle

/-- Tasks of at most C each are done after as many times C as there are rounds. -/
theorem finish_le (hw : 0 < w) (hC : 0 ≤ C) (hd : ∀ d ∈ tasks, d ≤ C)
    (hrun : Drains (List.replicate w 0) tasks finish) : finish ≤ waves tasks.length w • C := by
  have hle := finish_le_of_rounds hC hd hw (rounds_start hC) hrun
  rwa [Nat.mul_zero, Nat.zero_add] at hle

/-- With tasks of C each, every worker is free at a multiple of C, and all work is done by
one of them. -/
theorem finish_ge_of_multiples (hC : 0 < C) (hd : ∀ d ∈ tasks, d = C) (hfree : ∀ f ∈ free, ∃ m : Nat, f = m • C)
    (hsum : free.sum = n • C) (hrun : Drains free tasks finish) (hw : free.length = w) (hpos : 0 < w) :
    waves (n + tasks.length) w • C ≤ finish := by
  induction hrun generalizing n with
  | done hfinish hlast =>
      obtain ⟨m, rfl⟩ := hfree _ hfinish
      have hle := List.sum_le_card_nsmul _ _ hlast
      rw [hsum, hw, ← mul_nsmul', nsmul_le_nsmul_iff_left hC] at hle
      exact nsmul_le_nsmul_left hC.le (waves_le hpos hle)
  | pick hf hfirst hmem rest ih =>
      have hlength := List.length_erase_add_one hmem
      have hlengths := List.length_erase_add_one hf
      have hdC := hd _ hmem
      have hsplit := (List.perm_cons_erase hf).sum_eq
      rw [List.sum_cons] at hsplit
      have hle := ih (n := n + 1) (fun d hd' => hd d (List.mem_of_mem_erase hd')) ?_ ?_ ?_
      · rwa [Nat.add_assoc, Nat.add_comm 1, hlength] at hle
      · refine List.forall_mem_cons.mpr ⟨?_, fun g hg => hfree g (List.mem_of_mem_erase hg)⟩
        obtain ⟨m, rfl⟩ := hfree _ hf
        exact ⟨m + 1, by rw [hdC, succ_nsmul]⟩
      · rw [List.sum_cons, hdC, add_right_comm, ← hsplit, hsum, succ_nsmul]
      · rw [List.length_cons, hlengths, hw]

/-- Tasks of C each take as many times C as there are rounds. -/
theorem finish_eq (hw : 0 < w) (hC : 0 < C) (hd : ∀ d ∈ tasks, d = C)
    (hrun : Drains (List.replicate w 0) tasks finish) : finish = waves tasks.length w • C := by
  refine le_antisymm (finish_le hw hC.le (fun d hd' => (hd d hd').le) hrun) ?_
  have hfree : ∀ f ∈ List.replicate w (0 : α), ∃ m : Nat, f = m • C := fun f hf =>
    ⟨0, by rw [List.eq_of_mem_replicate hf, zero_nsmul]⟩
  have hsum : (List.replicate w (0 : α)).sum = 0 • C := by rw [List.sum_replicate, nsmul_zero, zero_nsmul]
  have hge := finish_ge_of_multiples hC hd hfree hsum hrun List.length_replicate hw
  rwa [Nat.zero_add] at hge

end pool

end Blockchecks.ListScheduling
