import Mathlib.Data.List.Basic

namespace Blockchecks.Escaping

variable {α : Type} [DecidableEq α] (esc bad : α)

/-- The escape makes the next character plain; a plain bad character and an
escape at the end are errors. -/
def readFrom : Bool → List α → Option (List α)
  | false, [] => some []
  | true, [] => none
  | true, c :: cs => (readFrom false cs).map (c :: ·)
  | false, c :: cs =>
      if c = esc then readFrom true cs
      else if c = bad then none
      else (readFrom false cs).map (c :: ·)

def read (cs : List α) : Option (List α) := readFrom esc bad false cs

/-- Put the escape before every bad character. -/
def escape (cs : List α) : List α := cs.flatMap (fun c => if c = bad then [esc, bad] else [c])

variable {esc bad}

theorem escape_bad (cs : List α) : escape esc bad (bad :: cs) = esc :: bad :: escape esc bad cs := by
  rw [escape, List.flatMap_cons, if_pos rfl]
  rfl

theorem escape_cons {c : α} (hc : c ≠ bad) (cs : List α) :
    escape esc bad (c :: cs) = c :: escape esc bad cs := by
  rw [escape, List.flatMap_cons, if_neg hc]
  rfl

theorem escape_append (xs ys : List α) :
    escape esc bad (xs ++ ys) = escape esc bad xs ++ escape esc bad ys := List.flatMap_append ..

theorem escape_eq_self {cs : List α} (h : bad ∉ cs) : escape esc bad cs = cs := by
  induction cs with
  | nil => rfl
  | cons c cs ih =>
      rw [List.mem_cons, not_or] at h
      rw [escape_cons (Ne.symm h.1), ih h.2]

theorem readFrom_escaped (c : α) (cs : List α) :
    readFrom esc bad true (c :: cs) = (readFrom esc bad false cs).map (c :: ·) := rfl

theorem readFrom_esc (cs : List α) : readFrom esc bad false (esc :: cs) = readFrom esc bad true cs := by
  rw [readFrom, if_pos rfl]

theorem readFrom_bad (hne : bad ≠ esc) (cs : List α) : readFrom esc bad false (bad :: cs) = none := by
  rw [readFrom, if_neg hne, if_pos rfl]

theorem readFrom_plain {c : α} (hesc : c ≠ esc) (hbad : c ≠ bad) (cs : List α) :
    readFrom esc bad false (c :: cs) = (readFrom esc bad false cs).map (c :: ·) := by
  rw [readFrom, if_neg hesc, if_neg hbad]

/-- What is read is no longer than the text, and shorter when an escape is used. -/
theorem length_readFrom (cs : List α) :
    (∀ text, readFrom esc bad true cs = some text → text.length ≤ cs.length) ∧
    ∀ text, readFrom esc bad false cs = some text →
      text.length ≤ cs.length ∧ (esc ∈ cs → text.length < cs.length) := by
  induction cs with
  | nil =>
      refine ⟨fun text h => (by cases h), fun text h => ?_⟩
      obtain rfl := Option.some.inj h
      exact ⟨Nat.le_refl _, fun hmem => (by cases hmem)⟩
  | cons c cs ih =>
      constructor
      · intro text h
        obtain ⟨rest, hrest, rfl⟩ := Option.map_eq_some_iff.mp h
        exact Nat.succ_le_succ (ih.2 rest hrest).1
      · intro text h
        rw [readFrom] at h
        split at h
        next =>
          have hle := ih.1 text h
          exact ⟨Nat.le_succ_of_le hle, fun _ => Nat.lt_succ_of_le hle⟩
        next hc =>
          split at h
          next => cases h
          next =>
            obtain ⟨rest, hrest, rfl⟩ := Option.map_eq_some_iff.mp h
            obtain ⟨hle, hlt⟩ := ih.2 rest hrest
            refine ⟨Nat.succ_le_succ hle, fun hmem => Nat.succ_lt_succ (hlt ?_)⟩
            exact (List.mem_cons.mp hmem).resolve_left (Ne.symm hc)

theorem esc_not_mem_of_read {cs : List α} (h : read esc bad cs = some cs) : esc ∉ cs := by
  intro hmem
  exact Nat.lt_irrefl _ (((length_readFrom cs).2 cs h).2 hmem)

/-- A text is read as it stands exactly when it has neither character. -/
theorem read_self_iff (hne : bad ≠ esc) (cs : List α) :
    read esc bad cs = some cs ↔ esc ∉ cs ∧ bad ∉ cs := by
  constructor
  · intro h
    have hesc := esc_not_mem_of_read h
    refine ⟨hesc, fun hbad => ?_⟩
    have hnone : readFrom esc bad false cs = none := by
      clear h
      induction cs with
      | nil => cases hbad
      | cons c cs ih =>
          rw [List.mem_cons, not_or] at hesc
          by_cases hc : c = bad
          · rw [hc, readFrom_bad hne]
          · have htail := (List.mem_cons.mp hbad).resolve_left (Ne.symm hc)
            rw [readFrom_plain (Ne.symm hesc.1) hc, ih hesc.2 htail, Option.map_none]
    rw [read, hnone] at h
    cases h
  · rintro ⟨hesc, hbad⟩
    rw [read]
    induction cs with
    | nil => rfl
    | cons c cs ih =>
        rw [List.mem_cons, not_or] at hesc hbad
        rw [readFrom_plain (Ne.symm hesc.1) (Ne.symm hbad.1), ih hesc.2 hbad.2, Option.map_some]

/-- What is read of an escaped text is no longer than the text, and shorter when
the text has an escape of its own. -/
theorem length_readFrom_escape (hne : bad ≠ esc) (cs : List α) :
    (∀ text, readFrom esc bad true (escape esc bad cs) = some text → text.length ≤ cs.length) ∧
    ∀ text, readFrom esc bad false (escape esc bad cs) = some text →
      text.length ≤ cs.length ∧ (esc ∈ cs → text.length < cs.length) := by
  induction cs with
  | nil => exact length_readFrom []
  | cons c cs ih =>
      by_cases hc : c = bad
      · rw [hc, escape_bad]
        constructor
        · intro text h
          rw [readFrom_escaped, readFrom_bad hne] at h
          cases h
        · intro text h
          rw [readFrom_esc, readFrom_escaped] at h
          obtain ⟨rest, hrest, rfl⟩ := Option.map_eq_some_iff.mp h
          obtain ⟨hle, hlt⟩ := ih.2 rest hrest
          refine ⟨Nat.succ_le_succ hle, fun hmem => Nat.succ_lt_succ (hlt ?_)⟩
          exact (List.mem_cons.mp hmem).resolve_left (Ne.symm hne)
      · rw [escape_cons hc]
        constructor
        · intro text h
          obtain ⟨rest, hrest, rfl⟩ := Option.map_eq_some_iff.mp h
          exact Nat.succ_le_succ (ih.2 rest hrest).1
        · intro text h
          by_cases hesc : c = esc
          · rw [hesc, readFrom_esc] at h
            have hle := ih.1 text h
            exact ⟨Nat.le_succ_of_le hle, fun _ => Nat.lt_succ_of_le hle⟩
          · rw [readFrom_plain hesc hc] at h
            obtain ⟨rest, hrest, rfl⟩ := Option.map_eq_some_iff.mp h
            obtain ⟨hle, hlt⟩ := ih.2 rest hrest
            refine ⟨Nat.succ_le_succ hle, fun hmem => Nat.succ_lt_succ (hlt ?_)⟩
            exact (List.mem_cons.mp hmem).resolve_left (Ne.symm hesc)

/-- Escaping is undone by reading exactly when the text has no escape itself. -/
theorem read_escape_iff (hne : bad ≠ esc) (cs : List α) :
    read esc bad (escape esc bad cs) = some cs ↔ esc ∉ cs := by
  constructor
  · intro h hmem
    exact Nat.lt_irrefl _ (((length_readFrom_escape hne cs).2 cs h).2 hmem)
  · intro hesc
    rw [read]
    induction cs with
    | nil => rfl
    | cons c cs ih =>
        rw [List.mem_cons, not_or] at hesc
        by_cases hc : c = bad
        · rw [hc, escape_bad, readFrom_esc, readFrom_escaped, ih hesc.2, Option.map_some]
        · rw [escape_cons hc, readFrom_plain (Ne.symm hesc.1) hc, ih hesc.2, Option.map_some]

theorem readFrom_escape_again (hne : bad ≠ esc) {cs : List α} (hbad : bad ∈ cs) (escaped : Bool)
    {text : List α} (h : readFrom esc bad escaped cs = some text) :
    readFrom esc bad escaped (escape esc bad cs) = none := by
  induction cs generalizing escaped text with
  | nil => cases hbad
  | cons c cs ih =>
      by_cases hc : c = bad
      · rw [hc] at h ⊢
        rw [escape_bad]
        cases escaped with
        | false =>
            rw [readFrom_bad hne] at h
            cases h
        | true => rw [readFrom_escaped, readFrom_bad hne, Option.map_none]
      · have htail := (List.mem_cons.mp hbad).resolve_left (Ne.symm hc)
        rw [escape_cons hc]
        cases escaped with
        | true =>
            obtain ⟨rest, hrest, _⟩ := Option.map_eq_some_iff.mp h
            rw [readFrom_escaped, ih htail false hrest, Option.map_none]
        | false =>
            by_cases hesc : c = esc
            · rw [hesc, readFrom_esc] at h ⊢
              exact ih htail true h
            · rw [readFrom_plain hesc hc] at h ⊢
              obtain ⟨rest, hrest, _⟩ := Option.map_eq_some_iff.mp h
              rw [ih htail false hrest, Option.map_none]

/-- A text that is escaped already keeps its reading exactly when it has no bad
character. -/
theorem read_escape_again_iff (hne : bad ≠ esc) {cs text : List α}
    (h : read esc bad cs = some text) :
    read esc bad (escape esc bad cs) = some text ↔ bad ∉ cs := by
  constructor
  · intro hagain hbad
    rw [read, readFrom_escape_again hne hbad false h] at hagain
    cases hagain
  · intro hbad
    rw [escape_eq_self hbad, h]

end Blockchecks.Escaping
