import Blockchecks.LuaConf

namespace Blockchecks.TextLines

open StrategyText LuaConf

variable {text part : List Char} {c : Char} {p : Char → Bool}

theorem splitFrom_char (c : Char) (part text : List Char) :
    splitFrom [c] 0 part text = List.splitOnPPrepend (· == c) text part := by
  induction text generalizing part with
  | nil => rfl
  | cons d text ih =>
      have hpre : [c].isPrefixOf (d :: text) = (d == c) := by
        rw [List.isPrefixOf_cons_cons, List.isPrefixOf_nil_left, Bool.and_true]
        exact BEq.comm
      rw [splitFrom, hpre, List.splitOnPPrepend_cons_eq_if]
      split
      · exact congrArg _ (ih [])
      · exact ih (d :: part)

/-- Splitting at a single character. -/
theorem split_char {sep : String} (hsep : sep.toList = [c]) (text : List Char) : split text sep = text.splitOn c := by
  rw [split, hsep, splitFrom_char]
  rfl

theorem mem_splitOnPPrepend {d : Char} (hd : p d = false) (acc : List Char) (h : d ∈ acc ∨ d ∈ text) :
    ∃ part ∈ List.splitOnPPrepend p text acc, d ∈ part := by
  induction text generalizing acc with
  | nil => exact ⟨acc.reverse, List.mem_singleton_self _, List.mem_reverse.mpr (h.resolve_right List.not_mem_nil)⟩
  | cons e text ih =>
      rw [List.splitOnPPrepend_cons_eq_if]
      split
      next he =>
        rcases h with h | h
        · exact ⟨acc.reverse, List.mem_cons_self, List.mem_reverse.mpr h⟩
        · rcases List.mem_cons.mp h with rfl | h
          · rw [hd] at he
            cases he
          · obtain ⟨part, hpart, hmem⟩ := ih [] (Or.inr h)
            exact ⟨part, List.mem_cons_of_mem _ hpart, hmem⟩
      next =>
        refine ih (e :: acc) ?_
        rcases h with h | h
        · exact Or.inl (List.mem_cons_of_mem _ h)
        · exact (List.mem_cons.mp h).imp_left (fun h => List.mem_cons.mpr (Or.inl h))

/-- A character that is no separator is in some part. -/
theorem mem_splitOnP {d : Char} (hd : p d = false) (h : d ∈ text) : ∃ part ∈ text.splitOnP p, d ∈ part :=
  mem_splitOnPPrepend hd [] (Or.inr h)

theorem strip_eq_self (hhead : ∀ d ∈ text.head?, isSpace d = false)
    (hlast : ∀ d ∈ text.getLast?, isSpace d = false) : strip text = text := by
  have hdrop : text.dropWhile isSpace = text := by
    cases text with
    | nil => rfl
    | cons d text => exact List.dropWhile_cons_of_neg (Bool.eq_false_iff.mp (hhead d rfl))
  have hback : text.reverse.dropWhile isSpace = text.reverse := by
    cases hrev : text.reverse with
    | nil => rfl
    | cons d rest =>
        refine List.dropWhile_cons_of_neg (Bool.eq_false_iff.mp (hlast d ?_))
        rw [← List.head?_reverse, hrev]
        rfl
  rw [strip, hdrop, hback, List.reverse_reverse]

theorem strip_prefix_dropWhile (text : List Char) : strip text <+: text.dropWhile isSpace := by
  have hsuffix := List.dropWhile_suffix isSpace (l := (text.dropWhile isSpace).reverse)
  rw [← List.reverse_prefix, List.reverse_reverse] at hsuffix
  exact hsuffix

theorem infix_strip (text : List Char) : strip text <:+: text :=
  (strip_prefix_dropWhile text).isInfix.trans (List.dropWhile_suffix isSpace).isInfix

theorem strip_head (text : List Char) : ∀ d ∈ (strip text).head?, isSpace d = false := by
  intro d hd
  obtain ⟨rest, hrest⟩ := strip_prefix_dropWhile text
  have hhead : (text.dropWhile isSpace).head? = some d := by
    rw [← hrest, List.head?_append, hd]
    rfl
  have hnot := List.head?_dropWhile_not isSpace text
  rw [hhead] at hnot
  exact hnot

theorem strip_last (text : List Char) : ∀ d ∈ (strip text).getLast?, isSpace d = false := by
  intro d hd
  rw [strip, List.getLast?_reverse] at hd
  have hnot := List.head?_dropWhile_not isSpace (text.dropWhile isSpace).reverse
  rw [hd] at hnot
  exact hnot

theorem strip_strip (text : List Char) : strip (strip text) = strip text :=
  strip_eq_self (strip_head text) (strip_last text)

theorem strip_cons_space (hc : isSpace c = true) (text : List Char) : strip (c :: text) = strip text := by
  rw [strip, strip, List.dropWhile_cons_of_pos hc]

theorem strip_concat_space (hc : isSpace c = true) (text : List Char) : strip (text ++ [c]) = strip text := by
  rw [strip, strip, List.dropWhile_append]
  split
  next hempty =>
    rw [List.isEmpty_iff.mp hempty, List.dropWhile_cons_of_pos hc]
    rfl
  next => rw [List.reverse_append, List.reverse_singleton, List.singleton_append, List.dropWhile_cons_of_pos hc]

/-- The lines of a text that are not blank, without the spaces around them. -/
def strippedLines (text : List Char) : List (List Char) := ((split text "\n").map strip).filter (· ≠ [])

theorem strippedLines_eq (text : List Char) :
    strippedLines text = ((text.splitOn '\n').map strip).filter (· ≠ []) := by
  rw [strippedLines, split_char (c := '\n') rfl]

theorem strippedLines_cons_space (hc : isSpace c = true) (text : List Char) :
    strippedLines (c :: text) = strippedLines text := by
  rw [strippedLines_eq, strippedLines_eq, List.splitOn_cons_eq_if_modifyHead]
  split
  · rfl
  · obtain ⟨line, lines, heq⟩ := List.exists_cons_of_ne_nil (List.splitOn_ne_nil '\n' text)
    rw [heq, List.modifyHead_cons, List.map_cons, List.map_cons, strip_cons_space hc]

/-- A space at the end stays in the last line, or begins a blank one. -/
theorem splitOn_concat_space (hc : isSpace c = true) (text : List Char) :
    ∃ line lines line' lines', text.splitOn '\n' = line :: lines ∧
      (text ++ [c]).splitOn '\n' = line' :: lines' ∧ strip line' = strip line ∧
      (lines'.map strip).filter (· ≠ []) = (lines.map strip).filter (· ≠ []) ∧
      (line' = line ∨ line' = line ++ [c]) := by
  induction text with
  | nil =>
      rw [List.nil_append, List.splitOn_cons_eq_if_modifyHead]
      split
      · exact ⟨[], [], [], [[]], rfl, rfl, rfl, rfl, Or.inl rfl⟩
      · exact ⟨[], [], [c], [], rfl, rfl, strip_cons_space hc [], rfl, Or.inr rfl⟩
  | cons d text ih =>
      obtain ⟨line, lines, line', lines', h, h', hline, hlines, hends⟩ := ih
      rw [List.cons_append, List.splitOn_cons_eq_if_modifyHead, List.splitOn_cons_eq_if_modifyHead, h, h']
      split
      · refine ⟨[], line :: lines, [], line' :: lines', rfl, rfl, rfl, ?_, Or.inl rfl⟩
        rw [List.map_cons, List.map_cons, List.filter_cons, List.filter_cons, hline, hlines]
      · refine ⟨d :: line, lines, d :: line', lines', rfl, rfl, ?_, hlines, hends.imp (congrArg _) (congrArg _)⟩
        rcases hends with rfl | rfl
        · rfl
        · exact strip_concat_space hc (d :: line)

theorem strippedLines_concat_space (hc : isSpace c = true) (text : List Char) :
    strippedLines (text ++ [c]) = strippedLines text := by
  obtain ⟨line, lines, line', lines', h, h', hline, hlines, -⟩ := splitOn_concat_space hc text
  rw [strippedLines_eq, strippedLines_eq, h, h', List.map_cons, List.map_cons, List.filter_cons, List.filter_cons,
    hline, hlines]

theorem strippedLines_strip (text : List Char) : strippedLines (strip text) = strippedLines text := by
  have hfront (text : List Char) : strippedLines (text.dropWhile isSpace) = strippedLines text := by
    induction text with
    | nil => rfl
    | cons c text ih =>
        rw [List.dropWhile_cons]
        split
        next hc => rw [ih, strippedLines_cons_space hc]
        next => rfl
  have hback (text : List Char) : strippedLines (text.dropWhile isSpace).reverse = strippedLines text.reverse := by
    induction text with
    | nil => rfl
    | cons c text ih =>
        rw [List.dropWhile_cons]
        split
        next hc => rw [ih, List.reverse_cons, strippedLines_concat_space hc]
        next => rfl
  rw [strip, hback, List.reverse_reverse, hfront]

/-- The lines come back from the text that joins them, if no line is broken. -/
theorem strippedLines_intercalate {lines : List (List Char)} (h : ∀ line ∈ lines, '\n' ∉ line) :
    strippedLines (['\n'].intercalate lines) = (lines.map strip).filter (· ≠ []) := by
  rw [strippedLines_eq]
  by_cases hempty : lines = []
  · subst hempty
    rfl
  · rw [List.splitOn_intercalate '\n' h hempty]

end Blockchecks.TextLines
