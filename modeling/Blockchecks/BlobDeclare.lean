import Blockchecks.BlobRename

namespace Blockchecks.BlobDeclare

open StrategyText LuaConf NfqwsConfig OrderedDict BlobScan BlobWords BlobRename

/-- An argument that declares the identifier. -/
def declares (ident : String) (arg : List Char) : Bool := startsWith arg ("--blob=" ++ ident ++ ":")

def blobLine (ident path : String) : String := "--blob=" ++ ident ++ ":@" ++ path

/-- The file that the names declare under an identifier. -/
def blobFile (env : Env) (names : List String) (ident : String) : Option String :=
  names.findSome? (fun name => if safeBlobName name = ident then env.blobPath name else none)

/-- The names up to the first occurrence of one. -/
def upTo (names : List String) (name : String) : List String := names.takeWhile (· ≠ name) ++ [name]

/-- What append_blob_cli_lines renames a name to. -/
def renameFor (env : Env) (names : List String) (name : String) : String :=
  if (blobFile env (upTo names name) (safeBlobName name)).isSome then safeBlobName name else ""

section declares

variable {ident other : String}

theorem declares_iff {arg : List Char} :
    declares ident arg = true ↔ ∃ rest, arg = "--blob=".toList ++ (ident.toList ++ ':' :: rest) := by
  rw [declares, startsWith, List.isPrefixOf_iff_prefix, String.toList_append, String.toList_append]
  constructor
  · rintro ⟨rest, rfl⟩
    exact ⟨rest, by simp⟩
  · rintro ⟨rest, rfl⟩
    exact ⟨rest, by simp⟩

theorem toList_blobLine (ident path : String) :
    (blobLine ident path).toList = "--blob=".toList ++ (ident.toList ++ ':' :: '@' :: path.toList) := by
  simp [blobLine, String.toList_append]

theorem declares_blobLine (hident : IsWord ident.toList) (hother : IsWord other.toList) (path : String) :
    declares ident (blobLine other path).toList = true ↔ ident = other := by
  rw [declares_iff, toList_blobLine]
  constructor
  · rintro ⟨rest, heq⟩
    have hword := word_inj hother hident (by decide) (by decide) (List.append_cancel_left heq)
    exact String.toList_injective hword.1.symm
  · rintro rfl
    exact ⟨_, rfl⟩

theorem startsWith_blobLine (ident path : String) :
    startsWith (blobLine ident path).toList ("--blob=" ++ ident ++ ":@") = true := by
  rw [startsWith, List.isPrefixOf_iff_prefix]
  exact ⟨path.toList, String.toList_append.symm⟩

theorem declares_of_line {line : List Char} (h : startsWith line ("--blob=" ++ ident ++ ":@") = true) :
    declares ident line = true := by
  rw [startsWith, List.isPrefixOf_iff_prefix] at h
  rw [declares, startsWith, List.isPrefixOf_iff_prefix]
  refine List.IsPrefix.trans ?_ h
  exact ⟨['@'], by simp [String.toList_append]⟩

theorem declares_none {line : List Char} (h : startsWith line "--blob=" = false) : declares ident line = false := by
  refine Bool.eq_false_iff.mpr (fun hline => Bool.eq_false_iff.mp h ?_)
  obtain ⟨rest, rfl⟩ := declares_iff.mp hline
  exact List.isPrefixOf_iff_prefix.mpr (List.prefix_append _ _)

end declares

section names

variable {env : Env} {names : List String} {name ident : String}

theorem safe_word (h : IsWord name.toList) : IsWord (safeBlobName name).toList := by
  rw [safeBlobName]
  split
  · exact h
  · rw [String.toList_append]
    exact List.forall_mem_cons.mpr ⟨by decide, h⟩

theorem safe_ne (h : name ≠ "") : safeBlobName name ≠ "" := by
  rw [safeBlobName]
  split
  · exact h
  · intro hempty
    have hlen := congrArg String.length hempty
    rw [String.length_append] at hlen
    have hb : "b".length = 1 := rfl
    have hzero : "".length = 0 := rfl
    omega

theorem blobFile_append (names : List String) (name ident : String) : blobFile env (names ++ [name]) ident =
    (blobFile env names ident).or (if safeBlobName name = ident then env.blobPath name else none) := by
  rw [blobFile, List.findSome?_append, List.findSome?_singleton]
  rfl

theorem blobFile_eq_none_iff : blobFile env names ident = none ↔
    ∀ name ∈ names, safeBlobName name = ident → env.blobPath name = none := by
  rw [blobFile, List.findSome?_eq_none_iff]
  refine forall₂_congr (fun name _ => ?_)
  split
  next h => exact ⟨fun hnone _ => hnone, fun hnone => hnone h⟩
  next h => exact iff_of_true rfl (fun heq => absurd heq h)

theorem blobFile_append_of_mem (h : name ∈ names) (ident : String) :
    blobFile env (names ++ [name]) ident = blobFile env names ident := by
  rw [blobFile_append]
  cases hfile : blobFile env names ident with
  | some file => rfl
  | none =>
      rw [Option.none_or]
      split
      next heq => exact blobFile_eq_none_iff.mp hfile name h heq
      next => rfl

theorem upTo_head (name : String) (names : List String) : upTo (name :: names) name = [name] := by
  simp [upTo]

theorem upTo_cons {n : String} (h : n ≠ name) (names : List String) : upTo (n :: names) name = n :: upTo names name := by
  simp [upTo, h]

theorem upTo_append_of_mem (h : name ∈ names) (rest : List String) : upTo (names ++ rest) name = upTo names name := by
  induction names with
  | nil => cases h
  | cons n names ih =>
      rw [List.cons_append]
      by_cases hn : n = name
      · rw [hn, upTo_head, upTo_head]
      · rw [upTo_cons hn, upTo_cons hn, ih ((List.mem_cons.mp h).resolve_left (Ne.symm hn))]

theorem upTo_concat (h : name ∉ names) : upTo (names ++ [name]) name = names ++ [name] := by
  induction names with
  | nil => exact upTo_head name []
  | cons n names ih =>
      rw [List.mem_cons, not_or] at h
      rw [List.cons_append, upTo_cons (Ne.symm h.1), ih h.2]

theorem upTo_initial (h : name ∈ names) : upTo names name <+: names := by
  induction names with
  | nil => cases h
  | cons n names ih =>
      by_cases hn : n = name
      · rw [hn, upTo_head]
        exact ⟨names, rfl⟩
      · rw [upTo_cons hn]
        exact List.cons_prefix_cons.mpr ⟨rfl, ih ((List.mem_cons.mp h).resolve_left (Ne.symm hn))⟩

/-- More names declare no fewer identifiers. -/
theorem blobFile_mono {some more : List String} (h : some <+: more) {file : String}
    (hfile : blobFile env some ident = .some file) : blobFile env more ident = .some file := by
  obtain ⟨rest, rfl⟩ := h
  rw [blobFile, List.findSome?_append]
  rw [blobFile] at hfile
  rw [hfile, Option.some_or]

theorem renameFor_append_of_mem (h : name ∈ names) (rest : List String) :
    renameFor env (names ++ rest) name = renameFor env names name := by
  rw [renameFor, renameFor, upTo_append_of_mem h]

end names

section run

variable {env : Env} {names : List String} {name : String} {state : List String × Renames}

/-- The lines and the renames once the names are appended. -/
structure Appended (env : Env) (names : List String) (state : List String × Renames) : Prop where
  lines : ∀ ident, IsWord ident.toList → state.1.filter (fun line => declares ident line.toList) =
    ((blobFile env names ident).map (blobLine ident)).toList
  renames : ∀ name, state.2.get? name = if name ∈ names then some (renameFor env names name) else none

theorem Appended.any_iff (h : Appended env names state) {ident : String} (hident : IsWord ident.toList) :
    state.1.any (fun line => startsWith line.toList ("--blob=" ++ ident ++ ":@")) =
      (blobFile env names ident).isSome := by
  have hlines := h.lines ident hident
  rw [Bool.eq_iff_iff, List.any_eq_true]
  constructor
  · rintro ⟨line, hline, hstarts⟩
    have hmem : line ∈ state.1.filter (fun line => declares ident line.toList) :=
      List.mem_filter.mpr ⟨hline, declares_of_line hstarts⟩
    rw [hlines] at hmem
    cases hfile : blobFile env names ident with
    | some file => rfl
    | none =>
        rw [hfile] at hmem
        cases hmem
  · intro hsome
    obtain ⟨file, hfile⟩ := Option.isSome_iff_exists.mp hsome
    rw [hfile] at hlines
    have hmem : blobLine ident file ∈ state.1.filter (fun line => declares ident line.toList) := by
      rw [hlines]
      exact List.mem_singleton_self _
    exact ⟨_, (List.mem_filter.mp hmem).1, startsWith_blobLine ident file⟩

theorem Appended.lines_any (h : Appended env names state) (hword : IsWord name.toList) :
    state.1.any (fun line => startsWith line.toList ("--blob=" ++ safeBlobName name ++ ":@")) =
      (blobFile env names (safeBlobName name)).isSome := h.any_iff (safe_word hword)

/-- A name has its rename already, and no line is added for it. -/
theorem Appended.known (h : Appended env names state) (hword : IsWord name.toList) (hne : name ≠ "")
    (hmem : name ∈ names) : Appended env (names ++ [name]) (blobStep env state name) := by
  obtain ⟨lines, renames⟩ := state
  have hany := h.lines_any hword
  have hget := h.renames name
  rw [if_pos hmem] at hget
  have hkept : blobStep env (lines, renames) name = (lines, renames) := by
    dsimp only [blobStep]
    rw [hget, Option.getD_some, Option.isSome_some, if_pos rfl]
    cases hfile : blobFile env (upTo names name) (safeBlobName name) with
    | none => rw [renameFor, hfile, Option.isSome_none, if_neg Bool.false_ne_true, if_pos rfl]
    | some file =>
        rw [blobFile_mono (upTo_initial hmem) hfile, Option.isSome_some] at hany
        rw [renameFor, hfile, Option.isSome_some, if_pos rfl, if_neg (safe_ne hne), if_pos hany]
  rw [hkept]
  constructor
  · intro ident hident
    rw [blobFile_append_of_mem hmem]
    exact h.lines ident hident
  · intro n
    have hn : n ∈ names ++ [name] ↔ n ∈ names := by
      rw [List.mem_append, List.mem_singleton]
      exact or_iff_left_of_imp (fun heq => heq ▸ hmem)
    rw [h.renames]
    simp only [hn]
    split
    next hin => rw [renameFor_append_of_mem hin]
    next => rfl

theorem blobFile_same (h : (blobFile env names (safeBlobName name)).isSome ∨ env.blobPath name = none)
    (ident : String) : blobFile env (names ++ [name]) ident = blobFile env names ident := by
  rw [blobFile_append]
  split
  next heq =>
    rw [heq] at h
    rcases h with h | h
    · exact Option.or_of_isSome h
    · rw [h, Option.or_none]
  next => exact Option.or_none

theorem Appended.fresh_renames (h : Appended env names state) {renames : Renames}
    (hget : ∀ n, renames.get? n =
      if n = name then some (renameFor env (names ++ [name]) name) else state.2.get? n) (n : String) :
    renames.get? n = if n ∈ names ++ [name] then some (renameFor env (names ++ [name]) n) else none := by
  rw [hget, h.renames]
  by_cases hn : n = name
  · rw [if_pos hn, hn, if_pos List.mem_concat_self]
  · have hmem : n ∈ names ++ [name] ↔ n ∈ names := by
      rw [List.mem_append, List.mem_singleton]
      exact or_iff_left hn
    rw [if_neg hn]
    simp only [hmem]
    split
    next hin => rw [renameFor_append_of_mem hin]
    next => rfl

/-- A name that is not renamed yet. -/
theorem Appended.fresh (h : Appended env names state) (hword : IsWord name.toList) (hne : name ≠ "")
    (hmem : name ∉ names) : Appended env (names ++ [name]) (blobStep env state name) := by
  obtain ⟨lines, renames⟩ := state
  have hsafe := safe_word hword
  have hany := h.lines_any hword
  have hget := h.renames name
  rw [if_neg hmem] at hget
  have hfor : renameFor env (names ++ [name]) name =
      if ((blobFile env names (safeBlobName name)).or (env.blobPath name)).isSome then safeBlobName name
      else "" := by
    rw [renameFor, upTo_concat hmem, blobFile_append, if_pos rfl]
  dsimp only [blobStep]
  rw [hget, Option.getD_none, Option.isSome_none, if_neg Bool.false_ne_true, if_neg (safe_ne hne)]
  cases hfile : blobFile env names (safeBlobName name) with
  | some file =>
      rw [hfile, Option.isSome_some] at hany
      rw [hfile] at hfor
      rw [if_pos hany]
      refine ⟨fun ident hident => ?_, h.fresh_renames (fun n => ?_)⟩
      · rw [blobFile_same (Or.inl (by rw [hfile]; rfl))]
        exact h.lines ident hident
      · rw [Dict.get?_set, hfor]
        rfl
  | none =>
      rw [hfile, Option.isSome_none] at hany
      rw [hfile] at hfor
      rw [if_neg (Bool.eq_false_iff.mp hany)]
      cases hpath : env.blobPath name with
      | none =>
          refine ⟨fun ident hident => ?_, h.fresh_renames (fun n => ?_)⟩
          · rw [blobFile_same (Or.inr hpath)]
            exact h.lines ident hident
          · rw [Dict.get?_set, Dict.get?_set, hfor, hpath]
            split
            next => rfl
            next hn => rfl
      | some path =>
          refine ⟨fun ident hident => ?_, h.fresh_renames (fun n => ?_)⟩
          · have hlines := h.lines ident hident
            change (lines ++ [blobLine (safeBlobName name) path]).filter _ = _
            rw [List.filter_append, hlines, blobFile_append]
            by_cases heq : safeBlobName name = ident
            · have hline := (declares_blobLine hident hsafe path).mpr heq.symm
              rw [if_pos heq, ← heq, hfile, hpath, Option.none_or, List.filter_cons_of_pos (heq ▸ hline)]
              rfl
            · have hline : ¬ declares ident (blobLine (safeBlobName name) path).toList = true := fun hdecl =>
                heq ((declares_blobLine hident hsafe path).mp hdecl).symm
              have hnone : [blobLine (safeBlobName name) path].filter (fun line => declares ident line.toList) = [] :=
                List.filter_eq_nil_iff.mpr (List.forall_mem_singleton.mpr hline)
              rw [if_neg heq, Option.or_none, hnone, List.append_nil]
          · rw [Dict.get?_set, hfor, hpath]
            rfl

/-- Appending the lines for a list of names. -/
theorem appended {given : List String} (hgiven : ∀ line ∈ given, startsWith line.toList "--blob=" = false)
    (hnames : ∀ name ∈ names, IsWord name.toList ∧ name ≠ "") :
    Appended env names (appendBlobCliLines env given names) := by
  induction names using List.reverseRecOn with
  | nil =>
      refine ⟨fun ident _ => ?_, fun name => rfl⟩
      exact List.filter_eq_nil_iff.mpr (fun line hline => Bool.eq_false_iff.mp (declares_none (hgiven line hline)))
  | append_singleton names name ih =>
      obtain ⟨hword, hne⟩ := hnames name List.mem_concat_self
      have hstate := ih (fun n hn => hnames n (List.mem_append_left _ hn))
      rw [appendBlobCliLines, List.foldl_concat, ← appendBlobCliLines]
      by_cases hmem : name ∈ names
      · exact hstate.known hword hne hmem
      · exact hstate.fresh hword hne hmem

end run

end Blockchecks.BlobDeclare
