import Mathlib.Data.List.Basic

namespace Blockchecks.JoinedText

variable {α : Type} [DecidableEq α] {sep : α}

/-- The first separator beyond a known number of them ends the first part. -/
theorem append_sep_inj {p p' rest rest' : List α} (h : p ++ sep :: rest = p' ++ sep :: rest')
    (hcount : p.count sep = p'.count sep) : p = p' ∧ rest = rest' := by
  rcases List.append_eq_append_iff.mp h with ⟨x, hp', hrest⟩ | ⟨x, hp, hrest⟩
  · cases x with
    | nil => exact ⟨by rw [hp', List.append_nil], (List.cons.inj hrest).2⟩
    | cons c x =>
        obtain rfl := (List.cons.inj hrest).1
        rw [hp', List.count_append, List.count_cons_self] at hcount
        omega
  · cases x with
    | nil => exact ⟨by rw [hp, List.append_nil], (List.cons.inj hrest).2.symm⟩
    | cons c x =>
        obtain rfl := (List.cons.inj hrest).1
        rw [hp, List.count_append, List.count_cons_self] at hcount
        omega

/-- Joined parts can be told apart by the separators that they contain. -/
theorem intercalate_inj {parts parts' : List (List α)}
    (h : List.intercalate [sep] parts = List.intercalate [sep] parts')
    (hcount : parts.map (List.count sep) = parts'.map (List.count sep)) : parts = parts' := by
  induction parts generalizing parts' with
  | nil => exact (List.map_eq_nil_iff.mp hcount.symm).symm
  | cons p parts ih =>
      cases parts' with
      | nil => cases hcount
      | cons p' parts' =>
          obtain ⟨hhead, htail⟩ := List.cons.inj hcount
          cases parts with
          | nil =>
              obtain rfl := List.map_eq_nil_iff.mp htail.symm
              rw [List.intercalate_singleton, List.intercalate_singleton] at h
              rw [h]
          | cons q parts =>
              cases parts' with
              | nil => cases htail
              | cons q' parts' =>
                  rw [List.intercalate_cons_cons, List.intercalate_cons_cons, List.append_assoc,
                    List.append_assoc, List.singleton_append, List.singleton_append] at h
                  obtain ⟨hp, hrest⟩ := append_sep_inj h hhead
                  rw [hp, ih hrest htail]

end Blockchecks.JoinedText
