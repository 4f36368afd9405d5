import Blockchecks.LuaConf
import Mathlib.Data.List.TakeWhile

namespace Blockchecks.ConfRewrite

open StrategyText LuaConf

/-- A character that no rewriting of a text touches. -/
structure Rewrites (isBreak : Char → Bool) (R : List Char → List Char) : Prop where
  nil : R [] = []
  brk : ∀ a c b, isBreak c = true → R (a ++ c :: b) = R a ++ c :: R b
  plain : ∀ a, (∀ c ∈ a, isBreak c = false) → (∀ c ∈ R a, isBreak c = false) ∧ (R a = [] → a = [])

variable {isBreak : Char → Bool} {R S : List Char → List Char}

namespace Rewrites

theorem id : Rewrites isBreak fun text => text := ⟨rfl, fun _ _ _ _ => rfl, fun _ h => ⟨h, fun h => h⟩⟩

theorem comp (hR : Rewrites isBreak R) (hS : Rewrites isBreak S) : Rewrites isBreak (fun text => S (R text)) where
  nil := by rw [hR.nil, hS.nil]
  brk := fun a c b hc => by rw [hR.brk a c b hc, hS.brk _ c _ hc]
  plain := fun a ha => by
    obtain ⟨hplain, hempty⟩ := hR.plain a ha
    obtain ⟨hplain', hempty'⟩ := hS.plain (R a) hplain
    exact ⟨hplain', fun h => hempty (hempty' h)⟩

variable (hR : Rewrites isBreak R)

include hR

theorem cons {c : Char} (hc : isBreak c = true) (text : List Char) : R (c :: text) = c :: R text := by
  have h := hR.brk [] c text hc
  rwa [hR.nil] at h

theorem concat {c : Char} (hc : isBreak c = true) (text : List Char) : R (text ++ [c]) = R text ++ [c] := by
  have h := hR.brk text c [] hc
  rwa [hR.nil] at h

theorem append {sep : List Char} (hsep : ∀ c ∈ sep, isBreak c = true) (text : List Char) :
    R (sep ++ text) = sep ++ R text := by
  induction sep with
  | nil => rfl
  | cons c sep ih =>
      obtain ⟨hc, hsep⟩ := List.forall_mem_cons.mp hsep
      rw [List.cons_append, hR.cons hc, ih hsep, List.cons_append]

/-- Up to its first break a text is rewritten by itself. -/
theorem first (text : List Char) : ∃ a rest, text = a ++ rest ∧ (∀ c ∈ a, isBreak c = false) ∧
    (∀ c ∈ rest.head?, isBreak c = true) ∧ R text = R a ++ R rest ∧ rest.length ≤ text.length := by
  refine ⟨text.takeWhile (fun c => !isBreak c), text.dropWhile (fun c => !isBreak c),
    List.takeWhile_append_dropWhile.symm, fun c hc => by simpa using List.mem_takeWhile_imp hc, ?_, ?_,
    (List.dropWhile_sublist _).length_le⟩
  · intro c hc
    have hhead := List.head?_dropWhile_not (fun c => !isBreak c) text
    rw [Option.mem_def.mp hc] at hhead
    simpa using hhead
  · cases hrest : text.dropWhile (fun c => !isBreak c) with
    | nil =>
        have htext := List.takeWhile_append_dropWhile (p := fun c => !isBreak c) (l := text)
        rw [hrest, List.append_nil] at htext
        rw [htext, hR.nil, List.append_nil]
    | cons c rest =>
        have hhead := List.head?_dropWhile_not (fun c => !isBreak c) text
        rw [hrest] at hhead
        have hc : isBreak c = true := by simpa using hhead
        rw [hR.cons hc, ← hR.brk _ c rest hc, ← hrest, List.takeWhile_append_dropWhile]

/-- What a rewritten text begins with, when that is a break. -/
theorem head_break {c : Char} (hc : isBreak c = true) {text r : List Char} (h : R text = c :: r) :
    ∃ rest, text = c :: rest ∧ R rest = r := by
  obtain ⟨a, rest, rfl, ha, hrest, happend, -⟩ := hR.first text
  rw [happend] at h
  cases hRa : R a with
  | cons d ra =>
      rw [hRa, List.cons_append] at h
      obtain ⟨rfl, -⟩ := List.cons.inj h
      have hd := (hR.plain a ha).1 d (hRa ▸ List.mem_cons_self)
      rw [hc] at hd
      cases hd
  | nil =>
      rw [(hR.plain a ha).2 hRa, List.nil_append]
      rw [hRa, List.nil_append] at h
      cases rest with
      | nil =>
          rw [hR.nil] at h
          cases h
      | cons d rest =>
          have hd := hrest d rfl
          rw [hR.cons hd] at h
          obtain ⟨rfl, rfl⟩ := List.cons.inj h
          exact ⟨rest, rfl, rfl⟩

theorem prefix_iff {sep : List Char} (hsep : ∀ c ∈ sep, isBreak c = true) (text : List Char) :
    sep <+: R text ↔ sep <+: text := by
  constructor
  · rintro ⟨tail, htail⟩
    induction sep generalizing text with
    | nil => exact List.nil_prefix
    | cons c sep ih =>
        obtain ⟨hc, hsep⟩ := List.forall_mem_cons.mp hsep
        obtain ⟨rest, rfl, hrest⟩ := hR.head_break hc htail.symm
        exact List.cons_prefix_cons.mpr ⟨rfl, ih hsep rest hrest.symm⟩
  · rintro ⟨tail, rfl⟩
    exact ⟨R tail, (hR.append hsep tail).symm⟩

theorem eq_nil_iff {text : List Char} : R text = [] ↔ text = [] := by
  constructor
  · intro h
    obtain ⟨a, rest, rfl, ha, hrest, happend, -⟩ := hR.first text
    rw [happend, List.append_eq_nil_iff] at h
    rw [(hR.plain a ha).2 h.1, List.nil_append]
    cases rest with
    | nil => rfl
    | cons c rest =>
        rw [hR.cons (hrest c rfl)] at h
        cases h.2
  · rintro rfl
    exact hR.nil

end Rewrites

section split

variable {sep : List Char}

theorem splitFrom_skip (part a b : List Char) : splitFrom sep a.length part (a ++ b) = splitFrom sep 0 part b := by
  induction a with
  | nil => rfl
  | cons c a ih => exact ih

theorem splitFrom_sep (hsep : sep ≠ []) (part rest : List Char) :
    splitFrom sep 0 part (sep ++ rest) = part.reverse :: splitFrom sep 0 [] rest := by
  cases sep with
  | nil => exact absurd rfl hsep
  | cons c sep =>
      have hprefix : (c :: sep).isPrefixOf (c :: (sep ++ rest)) = true :=
        List.isPrefixOf_iff_prefix.mpr (List.prefix_append (c :: sep) rest)
      rw [List.cons_append, splitFrom, if_pos hprefix]
      exact congrArg (part.reverse :: ·) (splitFrom_skip [] sep rest)

theorem splitFrom_char {c : Char} {part rest : List Char} (h : ¬ sep <+: c :: rest) :
    splitFrom sep 0 part (c :: rest) = splitFrom sep 0 (c :: part) rest := by
  rw [splitFrom, if_neg (by rwa [List.isPrefixOf_iff_prefix])]

/-- Characters that do not begin the separator. -/
theorem splitFrom_plain (hsep : ∀ c ∈ sep, isBreak c = true) (hne : sep ≠ []) {a : List Char}
    (ha : ∀ c ∈ a, isBreak c = false) (part rest : List Char) :
    splitFrom sep 0 part (a ++ rest) = splitFrom sep 0 (a.reverse ++ part) rest := by
  induction a generalizing part with
  | nil => rfl
  | cons c a ih =>
      obtain ⟨hc, ha⟩ := List.forall_mem_cons.mp ha
      have hnot : ¬ sep <+: c :: (a ++ rest) := by
        obtain ⟨d, sep', rfl⟩ := List.exists_cons_of_ne_nil hne
        intro h
        obtain ⟨rfl, -⟩ := List.cons_prefix_cons.mp h
        rw [hsep d List.mem_cons_self] at hc
        cases hc
      rw [List.cons_append, splitFrom_char hnot, ih ha, List.reverse_cons, List.append_assoc,
        List.singleton_append]

end split

namespace Rewrites

variable (hR : Rewrites isBreak R)

include hR

/-- Behind a part, at a break or at the end. -/
theorem splitFrom_map {sep : List Char} (hsep : ∀ c ∈ sep, isBreak c = true) (hne : sep ≠ []) (part text : List Char)
    (htext : ∀ c ∈ text.head?, isBreak c = true) :
    splitFrom sep 0 (R part).reverse (R text) = (splitFrom sep 0 part.reverse text).map R := by
  induction hn : text.length using Nat.strong_induction_on generalizing part text with
  | _ n ih =>
      cases text with
      | nil => simp [hR.nil, splitFrom]
      | cons c text =>
          have hc := htext c rfl
          by_cases hprefix : sep <+: c :: text
          · obtain ⟨tail, htail⟩ := hprefix
            obtain ⟨a, rest, rfl, ha, hrest, happend, hle⟩ := hR.first tail
            have hlen := congrArg List.length htail
            rw [List.length_append, hn] at hlen
            have hpos := List.length_pos_iff.mpr hne
            have hmap := ih rest.length (by omega) a rest hrest rfl
            rw [← htail, hR.append hsep, splitFrom_sep hne, splitFrom_sep hne, happend,
              splitFrom_plain hsep hne (hR.plain a ha).1, splitFrom_plain hsep hne ha, List.append_nil,
              List.append_nil, hmap, List.reverse_reverse, List.reverse_reverse, List.map_cons]
          · have hprefix' : ¬ sep <+: c :: R text := by
              rwa [← hR.cons hc, hR.prefix_iff hsep]
            obtain ⟨a, rest, rfl, ha, hrest, happend, hle⟩ := hR.first text
            rw [List.length_cons] at hn
            have hmap := ih rest.length (by omega) (part ++ c :: a) rest hrest rfl
            rw [hR.brk part c a hc] at hmap
            rw [hR.cons hc, splitFrom_char hprefix', splitFrom_char hprefix, happend,
              splitFrom_plain hsep hne (hR.plain a ha).1, splitFrom_plain hsep hne ha]
            simpa only [List.reverse_append, List.reverse_cons, List.append_assoc, List.singleton_append] using hmap

theorem split_map {sep : String} (hsep : ∀ c ∈ sep.toList, isBreak c = true) (hne : sep.toList ≠ [])
    (text : List Char) : split (R text) sep = (split text sep).map R := by
  obtain ⟨a, rest, rfl, ha, hrest, happend, -⟩ := hR.first text
  have hmap := hR.splitFrom_map hsep hne a rest hrest
  rw [split, split, happend, splitFrom_plain hsep hne (hR.plain a ha).1, splitFrom_plain hsep hne ha,
    List.append_nil, List.append_nil, hmap]

theorem dropWhile_map {p : Char → Bool} (hp : ∀ c, p c = true → isBreak c = true) (text : List Char) :
    (R text).dropWhile p = R (text.dropWhile p) := by
  induction text with
  | nil => simp [hR.nil]
  | cons c text ih =>
      by_cases hc : p c = true
      · rw [hR.cons (hp c hc), List.dropWhile_cons_of_pos hc, List.dropWhile_cons_of_pos hc, ih]
      · rw [List.dropWhile_cons_of_neg hc]
        cases hRt : R (c :: text) with
        | nil => rfl
        | cons d r =>
            refine List.dropWhile_cons_of_neg (fun hd => hc ?_)
            obtain ⟨_, heq, -⟩ := hR.head_break (hp d hd) hRt
            rwa [(List.cons.inj heq).1]

/-- The same from the right. -/
theorem mirror : Rewrites isBreak (fun text => (R text.reverse).reverse) where
  nil := by rw [List.reverse_nil, hR.nil, List.reverse_nil]
  brk := fun a c b hc => by
    rw [List.reverse_append, List.reverse_cons, List.append_assoc, List.singleton_append, hR.brk _ c _ hc,
      List.reverse_append, List.reverse_cons, List.append_assoc, List.singleton_append]
  plain := fun a ha => by
    obtain ⟨hplain, hempty⟩ := hR.plain a.reverse (fun c hc => ha c (List.mem_reverse.mp hc))
    exact ⟨fun c hc => hplain c (List.mem_reverse.mp hc),
      fun h => List.reverse_eq_nil_iff.mp (hempty (List.reverse_eq_nil_iff.mp h))⟩

theorem strip_map (hspace : ∀ c, isSpace c = true → isBreak c = true) (text : List Char) :
    strip (R text) = R (strip text) := by
  have hright := hR.mirror.dropWhile_map hspace (text.dropWhile isSpace).reverse
  rw [List.reverse_reverse] at hright
  rw [strip, strip, hR.dropWhile_map hspace, hright, List.reverse_reverse]

theorem startsWith_map {sep : String} (hsep : ∀ c ∈ sep.toList, isBreak c = true) (text : List Char) :
    startsWith (R text) sep = startsWith text sep := by
  rw [Bool.eq_iff_iff, startsWith, startsWith, List.isPrefixOf_iff_prefix, List.isPrefixOf_iff_prefix,
    hR.prefix_iff hsep]

end Rewrites

/-- The characters between which a line and its arguments are told apart. -/
structure Layout (isBreak : Char → Bool) : Prop where
  space : ∀ c, isSpace c = true → isBreak c = true
  dash : isBreak '-' = true

theorem Layout.dashes (h : Layout isBreak) : ∀ c ∈ "--".toList, isBreak c = true := by
  intro c hc
  have heq : c = '-' := by simpa using hc
  exact heq ▸ h.dash

theorem Layout.argument (h : Layout isBreak) : ∀ c ∈ " --".toList, isBreak c = true := by
  intro c hc
  have heq : c = ' ' ∨ c = '-' := by simpa using hc
  rcases heq with rfl | rfl
  · exact h.space ' ' (by decide)
  · exact h.dash

theorem Layout.line (h : Layout isBreak) : ∀ c ∈ "\n".toList, isBreak c = true := by
  intro c hc
  have heq : c = '\n' := by simpa using hc
  exact heq ▸ h.space '\n' (by decide)

namespace Rewrites

variable (hR : Rewrites isBreak R) (hlayout : Layout isBreak)

include hR hlayout

theorem splitCliArgs_map (rawLine : List Char) : splitCliArgs (R rawLine) = (splitCliArgs rawLine).map R := by
  rw [splitCliArgs, splitCliArgs, hR.split_map hlayout.argument (by decide), List.filterMap_map,
    List.map_filterMap]
  refine List.filterMap_congr (fun arg _ => ?_)
  rw [Function.comp_apply, hR.strip_map hlayout.space]
  by_cases hempty : strip arg = []
  · simp [hempty, hR.nil]
  · have hempty' : R (strip arg) ≠ [] := fun h => hempty (hR.eq_nil_iff.mp h)
    simp only [hempty, hempty', if_false, hR.startsWith_map hlayout.dashes]
    split
    · rfl
    · rw [Option.map_some, hR.append hlayout.dashes]

end Rewrites

/-- The command line arguments of a strategy: those of every line, or only of the
lines that begin with two dashes. -/
def cliArgs (all : Bool) (text : List Char) : List (List Char) :=
  (split text "\n").flatMap (fun rawLine =>
    if all || startsWith (strip rawLine) "--" then splitCliArgs (strip rawLine) else [])

theorem cliArgs_map (hR : Rewrites isBreak R) (hlayout : Layout isBreak) (all : Bool) (text : List Char) :
    cliArgs all (R text) = (cliArgs all text).map R := by
  rw [cliArgs, cliArgs, hR.split_map hlayout.line (by decide), List.flatMap_map, List.map_flatMap]
  refine List.flatMap_congr (fun rawLine _ => ?_)
  rw [hR.strip_map hlayout.space, hR.startsWith_map hlayout.dashes]
  split
  · exact hR.splitCliArgs_map hlayout _
  · rfl

end Blockchecks.ConfRewrite
