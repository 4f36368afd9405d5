import Blockchecks.ExportConf
import Blockchecks.TextLines

namespace Blockchecks.TextFile

open StrategyText LuaConf ExportConf TextLines

/-- A text as a file in text mode reads it. -/
def universalNewlines : List Char → List Char
  | [] => []
  | '\r' :: '\n' :: text => '\n' :: universalNewlines text
  | c :: text => (if c = '\r' then '\n' else c) :: universalNewlines text

def isNewline (c : Char) : Bool := c == '\n' || c == '\r'

def splitlines (text : List Char) : List (List Char) :=
  let parts := text.splitOnP isLineBreak
  if parts.getLast? = some [] then parts.dropLast else parts

def joinLines (lines : List (List Char)) : List Char := ['\n'].intercalate lines

/-- Replace every backslash that stands before an n, together with it, by a newline. -/
def unescapeNewlines : List Char → List Char
  | [] => []
  | '\\' :: 'n' :: text => '\n' :: unescapeNewlines text
  | c :: text => c :: unescapeNewlines text

/-- What follows the first occurrence of a separator. -/
def afterFirst (sep : List Char) : List Char → Option (List Char)
  | [] => none
  | c :: text => if sep.isPrefixOf (c :: text) then some ((c :: text).drop sep.length) else afterFirst sep text

variable {text part : List Char} {p : Char → Bool} {c : Char}

theorem flatten_modifyHead (c : Char) {parts : List (List Char)} (h : parts ≠ []) :
    (parts.modifyHead (List.cons c)).flatten = c :: parts.flatten := by
  cases parts with
  | nil => exact absurd rfl h
  | cons part parts => rfl

theorem flatten_splitOnP (text : List Char) (p : Char → Bool) :
    (text.splitOnP p).flatten = text.filter (fun c => !p c) := by
  induction text with
  | nil => rfl
  | cons c text ih =>
      rw [List.splitOnP_cons_eq_if_modifyHead, List.filter_cons]
      by_cases hc : p c = true
      · rw [if_pos hc, hc, List.flatten_cons, ih]
        rfl
      · rw [if_neg hc, Bool.eq_false_iff.mpr hc, flatten_modifyHead c (List.splitOnP_ne_nil p text), ih]
        rfl

theorem mem_splitOnP_not (h : part ∈ text.splitOnP p) (hc : c ∈ part) : p c = false := by
  have hmem : c ∈ (text.splitOnP p).flatten := List.mem_flatten.mpr ⟨part, h, hc⟩
  rw [flatten_splitOnP, List.mem_filter] at hmem
  exact Bool.not_eq_true' (p c) ▸ hmem.2

/-- Up to blank lines, a text file is split at both newline characters. -/
theorem splitOn_universalNewlines (text : List Char) :
    ∃ part parts parts', (universalNewlines text).splitOn '\n' = part :: parts ∧
      text.splitOnP isNewline = part :: parts' ∧
      parts.filter (· ≠ []) = parts'.filter (· ≠ []) := by
  fun_induction universalNewlines text with
  | case1 => exact ⟨[], [], [], rfl, rfl, rfl⟩
  | case2 text ih =>
      obtain ⟨part, parts, parts', h, h', hblank⟩ := ih
      refine ⟨[], part :: parts, [] :: part :: parts', ?_, ?_, ?_⟩
      · rw [List.splitOn_cons_eq_if_modifyHead, if_pos (beq_self_eq_true '\n'), h]
      · rw [List.splitOnP_cons_eq_if_modifyHead, if_pos (by decide : isNewline '\r' = true),
          List.splitOnP_cons_eq_if_modifyHead, if_pos (by decide : isNewline '\n' = true), h']
      · rw [List.filter_cons, List.filter_cons, List.filter_cons, hblank]
        rfl
  | case3 c text _ ih =>
      obtain ⟨part, parts, parts', h, h', hblank⟩ := ih
      by_cases hc : isNewline c = true
      · have hread : (if c = '\r' then '\n' else c) = '\n' := by
          rcases Bool.or_eq_true_iff.mp hc with hc | hc
          · rw [beq_iff_eq.mp hc]
            rfl
          · rw [beq_iff_eq.mp hc]
            rfl
        refine ⟨[], part :: parts, part :: parts', ?_, ?_, ?_⟩
        · rw [hread, List.splitOn_cons_eq_if_modifyHead, if_pos (beq_self_eq_true '\n'), h]
        · rw [List.splitOnP_cons_eq_if_modifyHead, if_pos hc, h']
        · rw [List.filter_cons, List.filter_cons, hblank]
      · have hne : ¬ c = '\r' := fun heq => hc (by rw [heq]; rfl)
        have hne' : ¬ (c == '\n') = true := fun heq => hc (by rw [isNewline, heq]; rfl)
        refine ⟨c :: part, parts, parts', ?_, ?_, hblank⟩
        · rw [if_neg hne, List.splitOn_cons_eq_if_modifyHead, if_neg hne', h]
          rfl
        · rw [List.splitOnP_cons_eq_if_modifyHead, if_neg hc, h']
          rfl

theorem universalNewlines_eq_self (h : '\r' ∉ text) : universalNewlines text = text := by
  fun_induction universalNewlines text with
  | case1 => rfl
  | case2 text ih => exact absurd List.mem_cons_self h
  | case3 c text _ ih =>
      rw [ih (fun hin => h (List.mem_cons_of_mem _ hin)),
        if_neg (fun heq => h (List.mem_cons.mpr (Or.inl heq.symm)))]

theorem mem_intercalate {sep : Char} {parts : List (List Char)} (h : c ∈ [sep].intercalate parts) :
    c = sep ∨ ∃ part ∈ parts, c ∈ part := by
  induction parts with
  | nil => exact absurd h List.not_mem_nil
  | cons part parts ih =>
      cases parts with
      | nil =>
          rw [List.intercalate_singleton] at h
          exact Or.inr ⟨part, List.mem_cons_self, h⟩
      | cons next parts =>
          rw [List.intercalate_cons_cons, List.append_assoc] at h
          rcases List.mem_append.mp h with h | h
          · exact Or.inr ⟨part, List.mem_cons_self, h⟩
          · rcases List.mem_append.mp h with h | h
            · exact Or.inl (List.mem_singleton.mp h)
            · rcases ih h with h | ⟨l, hl, hc⟩
              · exact Or.inl h
              · exact Or.inr ⟨l, List.mem_cons_of_mem _ hl, hc⟩

/-- Lines without a line break come back from the file that joins them. -/
theorem splitOnP_joinLines (hp : p '\n' = true) {lines : List (List Char)} (hne : lines ≠ [])
    (h : ∀ line ∈ lines, ∀ c ∈ line, p c = false) :
    (joinLines lines ++ ['\n']).splitOnP p = lines ++ [[]] := by
  induction lines with
  | nil => exact absurd rfl hne
  | cons line lines ih =>
      have hline := h line List.mem_cons_self
      cases lines with
      | nil =>
          rw [joinLines, List.intercalate_singleton,
            List.splitOnP_append_cons_of_forall_mem hline '\n' hp]
          rfl
      | cons next lines =>
          have hrest := ih (List.cons_ne_nil _ _) (fun l hl => h l (List.mem_cons_of_mem _ hl))
          rw [joinLines, List.intercalate_cons_cons, List.append_assoc, List.append_assoc,
            List.singleton_append, List.splitOnP_append_cons_of_forall_mem hline '\n' hp]
          exact congrArg _ hrest

theorem splitlines_joinLines {lines : List (List Char)} (hne : lines ≠ [])
    (h : ∀ line ∈ lines, ∀ c ∈ line, isLineBreak c = false) :
    splitlines (joinLines lines ++ ['\n']) = lines := by
  rw [splitlines, splitOnP_joinLines (by decide) hne h]
  simp only [List.getLast?_concat, List.dropLast_concat, if_true]

theorem splitlines_read_joinLines {lines : List (List Char)} (hne : lines ≠ [])
    (h : ∀ line ∈ lines, ∀ c ∈ line, isLineBreak c = false) :
    splitlines (universalNewlines (joinLines lines ++ ['\n'])) = lines := by
  have hno : '\r' ∉ joinLines lines ++ ['\n'] := by
    intro hin
    rcases List.mem_append.mp hin with hin | hin
    · rcases mem_intercalate hin with hc | ⟨line, hline, hc⟩
      · exact absurd hc (by decide)
      · exact absurd (h line hline '\r' hc) (by decide)
    · exact absurd (List.mem_singleton.mp hin) (by decide)
  rw [universalNewlines_eq_self hno, splitlines_joinLines hne h]

theorem mem_splitlines (h : part ∈ splitlines text) (hc : c ∈ part) : isLineBreak c = false := by
  rw [splitlines] at h
  split at h
  · exact mem_splitOnP_not (List.dropLast_subset _ h) hc
  · exact mem_splitOnP_not h hc

theorem unescapeNewlines_eq_or_shorter (text : List Char) :
    unescapeNewlines text = text ∨ (unescapeNewlines text).length < text.length := by
  fun_induction unescapeNewlines text with
  | case1 => exact Or.inl rfl
  | case2 text ih =>
      right
      rcases ih with ih | ih
      · rw [ih]
        exact Nat.lt_succ_self _
      · simp only [List.length_cons]
        omega
  | case3 c text _ ih => exact ih.imp (congrArg _) Nat.succ_lt_succ

theorem unescapeNewlines_eq_self_iff (text : List Char) :
    unescapeNewlines text = text ↔ contains text "\\n" = false := by
  fun_induction unescapeNewlines text with
  | case1 => exact iff_of_true rfl rfl
  | case2 text ih =>
      refine iff_of_false ?_ ?_
      · intro h
        have hhead := (List.cons.inj h).1
        revert hhead
        decide
      · rw [contains, hasInfix]
        exact fun h => absurd h.symm Bool.false_ne_true
  | case3 c text hno ih =>
      have hpre : "\\n".toList.isPrefixOf (c :: text) = false := by
        refine Bool.eq_false_iff.mpr (fun h => ?_)
        obtain ⟨rest, hrest⟩ := List.isPrefixOf_iff_prefix.mp h
        obtain ⟨hc, htext⟩ := List.cons.inj hrest
        exact hno rest hc.symm htext.symm
      rw [contains, hasInfix, hpre, Bool.false_or, List.cons.injEq, and_iff_right rfl]
      exact ih

theorem newline_mem_unescapeNewlines (h : contains text "\\n" = true) : '\n' ∈ unescapeNewlines text := by
  fun_induction unescapeNewlines text with
  | case1 => exact absurd h (by decide)
  | case2 text ih => exact List.mem_cons_self
  | case3 c text hno ih =>
      rw [contains, hasInfix, Bool.or_eq_true] at h
      rcases h with h | h
      · obtain ⟨rest, hrest⟩ := List.isPrefixOf_iff_prefix.mp h
        obtain ⟨hc, htext⟩ := List.cons.inj hrest
        exact absurd htext.symm (hno rest hc.symm)
      · exact List.mem_cons_of_mem _ (ih h)

theorem unescapeNewlines_ne_nil (h : text ≠ []) : unescapeNewlines text ≠ [] := by
  fun_cases unescapeNewlines text with
  | case1 => exact absurd rfl h
  | case2 text => exact List.cons_ne_nil _ _
  | case3 c text _ => exact List.cons_ne_nil _ _

theorem strip_eq_or_shorter (text : List Char) : strip text = text ∨ (strip text).length < text.length := by
  rcases Nat.lt_or_ge (strip text).length text.length with h | h
  · exact Or.inr h
  · exact Or.inl ((infix_strip text).eq_of_length (Nat.le_antisymm (infix_strip text).length_le h))

theorem length_afterFirst {sep rest : List Char} (h : afterFirst sep text = some rest) :
    rest.length + sep.length ≤ text.length := by
  induction text with
  | nil => cases h
  | cons c text ih =>
      rw [afterFirst] at h
      split at h
      next hpre =>
        have hle := (List.isPrefixOf_iff_prefix.mp hpre).length_le
        rw [← Option.some.inj h, List.length_drop]
        omega
      · have := ih h
        rw [List.length_cons]
        omega

theorem afterFirst_eq_none_iff {sep : List Char} (hsep : sep ≠ []) :
    afterFirst sep text = none ↔ hasInfix sep text = false := by
  induction text with
  | nil =>
      refine iff_of_true rfl ?_
      cases sep with
      | nil => exact absurd rfl hsep
      | cons => rfl
  | cons c text ih =>
      rw [afterFirst, hasInfix]
      split
      next hpre =>
        rw [hpre, Bool.true_or]
        exact iff_of_false (Option.some_ne_none _) (fun h => absurd h.symm Bool.false_ne_true)
      next hpre => rw [Bool.eq_false_iff.mpr hpre, Bool.false_or]; exact ih

end Blockchecks.TextFile
