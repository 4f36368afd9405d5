import Mathlib.Data.List.Basic

namespace Blockchecks.DoubleQuotes

def blanks : List Char := [' ', '\t', '\n']

/-- A dollar before a blank, or with nothing behind it, stands for itself. -/
def loneDollar (rest : List Char) : Bool := rest.head?.all (fun c => c ∈ '"' :: blanks)

/-- The word that follows an opening quote, by the rules for double quotes. A dollar or
backquote is replaced by the text that expand makes of it and of the characters behind it,
where it may take some of them; no value is an error. -/
def readFrom (expand : Char → List Char → Option (List Char × Nat)) : Nat → List Char → Option (List Char)
  | _, [] => none
  | skip + 1, _ :: rest => readFrom expand skip rest
  | 0, c :: rest =>
      if c = '"' then (if rest = [] then some [] else none)
      else if c = '\\' then match rest.head? with
        | none => none
        | some d =>
            if d = '\n' then readFrom expand 1 rest
            else if d ∈ ['$', '`', '"', '\\'] then (readFrom expand 1 rest).map (d :: ·)
            else (readFrom expand 0 rest).map ('\\' :: ·)
      else if c = '`' ∨ c = '$' ∧ loneDollar rest = false then match expand c rest with
        | none => none
        | some (value, taken) => (readFrom expand taken rest).map (value ++ ·)
      else (readFrom expand 0 rest).map (c :: ·)

def read (expand : Char → List Char → Option (List Char × Nat)) : List Char → Option (List Char)
  | '"' :: rest => readFrom expand 0 rest
  | _ => none

/-- Nothing in the text starts an expansion. -/
def unexpanded : List Char → Bool
  | [] => true
  | c :: rest => c != '`' && (c != '$' || rest.head?.all (fun d => d ∈ blanks)) && unexpanded rest

def escapeChar (c : Char) : List Char :=
  if c = '\\' then ['\\', '\\'] else if c = '"' then ['\\', '"'] else [c]

/-- Escapes for the backslash and the quote, and for nothing else. -/
def escape (text : List Char) : List Char := text.flatMap escapeChar

variable {expand : Char → List Char → Option (List Char × Nat)}

theorem escape_cons (c : Char) (rest : List Char) : escape (c :: rest) = escapeChar c ++ escape rest :=
  List.flatMap_cons

theorem loneDollar_escape (rest : List Char) :
    loneDollar (escape rest ++ ['"']) = rest.head?.all (fun d => d ∈ blanks) := by
  cases rest with
  | nil => rfl
  | cons d rest =>
      rw [escape_cons, escapeChar]
      by_cases hback : d = '\\'
      · subst hback; rfl
      · by_cases hquote : d = '"'
        · subst hquote; rfl
        · simp [loneDollar, hback, hquote]

theorem readFrom_escaped {c : Char} (h : c = '\\' ∨ c = '"') (rest : List Char) :
    readFrom expand 0 (escapeChar c ++ rest) = (readFrom expand 0 rest).map (c :: ·) := by
  rcases h with rfl | rfl
  · rfl
  · rfl

theorem readFrom_plain {c : Char} (hback : c ≠ '\\') (hquote : c ≠ '"') {rest : List Char}
    (htick : c ≠ '`') (hdollar : c = '$' → loneDollar rest = true) :
    readFrom expand 0 (escapeChar c ++ rest) = (readFrom expand 0 rest).map (c :: ·) := by
  have hno : ¬ (c = '`' ∨ c = '$' ∧ loneDollar rest = false) := by
    rintro (hc | ⟨hc, hfalse⟩)
    · exact htick hc
    · rw [hdollar hc] at hfalse
      cases hfalse
  rw [escapeChar, if_neg hback, if_neg hquote, List.singleton_append, readFrom, if_neg hquote, if_neg hback,
    if_neg hno]

theorem readFrom_expanded {c : Char} {rest : List Char} (h : c = '`' ∨ c = '$' ∧ loneDollar rest = false)
    (hnone : expand c rest = none) : readFrom expand 0 (escapeChar c ++ rest) = none := by
  have hback : c ≠ '\\' := by rintro rfl; simp at h
  have hquote : c ≠ '"' := by rintro rfl; simp at h
  rw [escapeChar, if_neg hback, if_neg hquote, List.singleton_append, readFrom, if_neg hquote, if_neg hback,
    if_pos h, hnone]

theorem unexpanded_cons (c : Char) (rest : List Char) : unexpanded (c :: rest) = true ↔
    ¬ (c = '`' ∨ c = '$' ∧ loneDollar (escape rest ++ ['"']) = false) ∧ unexpanded rest = true := by
  rw [loneDollar_escape, unexpanded, Bool.and_eq_true, Bool.and_eq_true, Bool.or_eq_true, bne_iff_ne, bne_iff_ne,
    not_or, not_and, Bool.not_eq_false]
  simp only [imp_iff_not_or, ne_eq]

theorem readFrom_escape {text : List Char} (h : unexpanded text = true) :
    readFrom expand 0 (escape text ++ ['"']) = some text := by
  induction text with
  | nil => rfl
  | cons c rest ih =>
      obtain ⟨hno, hrest⟩ := (unexpanded_cons c rest).mp h
      rw [escape_cons, List.append_assoc]
      by_cases hesc : c = '\\' ∨ c = '"'
      · rw [readFrom_escaped hesc, ih hrest, Option.map_some]
      · rw [not_or] at hesc
        rw [readFrom_plain hesc.1 hesc.2, ih hrest, Option.map_some]
        · exact fun hc => hno (Or.inl hc)
        · intro hc
          exact Bool.of_not_eq_false fun hfalse => hno (Or.inr ⟨hc, hfalse⟩)

/-- Where every expansion is an error, a text that has one gives no value. -/
theorem readFrom_escape_none {text : List Char} (h : unexpanded text = false) :
    readFrom (fun _ _ => none) 0 (escape text ++ ['"']) = none := by
  induction text with
  | nil => cases h
  | cons c rest ih =>
      rw [escape_cons, List.append_assoc]
      by_cases hexp : c = '`' ∨ c = '$' ∧ loneDollar (escape rest ++ ['"']) = false
      · rw [readFrom_expanded hexp rfl]
      · have hrest : unexpanded rest = false := by
          apply Bool.of_not_eq_true
          intro htrue
          rw [(unexpanded_cons c rest).mpr ⟨hexp, htrue⟩] at h
          cases h
        by_cases hesc : c = '\\' ∨ c = '"'
        · rw [readFrom_escaped hesc, ih hrest, Option.map_none]
        · rw [not_or] at hesc
          rw [readFrom_plain hesc.1 hesc.2, ih hrest, Option.map_none]
          · exact fun hc => hexp (Or.inl hc)
          · intro hc
            exact Bool.of_not_eq_false fun hfalse => hexp (Or.inr ⟨hc, hfalse⟩)

theorem read_escape_iff (text : List Char) :
    (∀ expand, read expand ('"' :: escape text ++ ['"']) = some text) ↔ unexpanded text = true := by
  constructor
  · intro h
    apply Bool.of_not_eq_false
    intro hfalse
    have hnone := readFrom_escape_none hfalse
    have hsome := h (fun _ _ => none)
    rw [List.cons_append, read, hnone] at hsome
    cases hsome
  · exact fun h expand => readFrom_escape h

/-- A line break in front of anything else ends what a dollar could name. -/
theorem unexpanded_append_newline (text rest : List Char) : unexpanded (text ++ '\n' :: rest) =
    (unexpanded text && unexpanded rest) := by
  induction text with
  | nil => simp [unexpanded]
  | cons c text ih =>
      have hhead : (text ++ '\n' :: rest).head?.all (fun d => d ∈ blanks) = text.head?.all (fun d => d ∈ blanks) := by
        cases text with
        | nil => rfl
        | cons d text => rfl
      rw [List.cons_append, unexpanded, unexpanded, ih, hhead, Bool.and_assoc _ (unexpanded text)]

/-- Lines that are joined by a break and a blank. -/
theorem unexpanded_join (lines : List (List Char)) :
    unexpanded (['\n', ' '].intercalate lines) = lines.all unexpanded := by
  induction lines with
  | nil => rfl
  | cons line lines ih =>
      cases lines with
      | nil => simp [List.intercalate]
      | cons next lines =>
          have hjoin : ['\n', ' '].intercalate (line :: next :: lines) =
              line ++ '\n' :: (' ' :: ['\n', ' '].intercalate (next :: lines)) := by
            simp [List.intercalate, List.intersperse]
          have hblank : ∀ rest, unexpanded (' ' :: rest) = unexpanded rest := fun rest => by simp [unexpanded]
          rw [hjoin, unexpanded_append_newline, hblank, ih, List.all_cons (l := next :: lines)]

end Blockchecks.DoubleQuotes
