import Blockchecks.BlobWords
import Blockchecks.ConfRewrite

namespace Blockchecks.BlobRename

open StrategyText LuaConf NfqwsConfig OrderedDict BlobScan WordRefs BlobWords ConfRewrite

/-- A character that is in no reference. -/
def isBreak (c : Char) : Bool := !isWordChar c && c != '='

theorem break_of_not_word {c : Char} (hc : isWordChar c = false) (hne : c ≠ '=') : isBreak c = true := by
  rw [isBreak, hc, Bool.not_false, Bool.true_and, bne_iff_ne]
  exact hne

theorem isBreak_iff {c : Char} : isBreak c = true ↔ isWordChar c = false ∧ c ≠ '=' := by
  rw [isBreak, Bool.and_eq_true, Bool.not_eq_true', bne_iff_ne]

theorem layout : Layout isBreak where
  space := fun c hc => by
    refine isBreak_iff.mpr ⟨Bool.eq_false_iff.mpr (fun hword => ?_), ?_⟩
    · obtain ⟨hlow, hhigh⟩ := word_range hword
      rcases space_range hc with h | h <;> omega
    · rintro rfl
      exact absurd hc (by decide)
  dash := by decide

section one

variable {orig new w : List Char} {ps : List (Char × List Char)}

theorem renamed_areWords (hnew : IsWord new) (hps : AreWords ps) : ∀ free w,
    AreWords (renamed blobGrammar orig new free w ps) := by
  induction ps with
  | nil => exact fun _ _ _ h => (List.not_mem_nil h).elim
  | cons p ps ih =>
      obtain ⟨c, v⟩ := p
      obtain ⟨hp, htail⟩ := List.forall_mem_cons.mp hps
      intro free w
      obtain ⟨v', free', hcons, hcase⟩ := renamed_cons (G := blobGrammar) orig new free w c v ps
      rw [hcons]
      refine List.forall_mem_cons.mpr ⟨⟨hp.1, ?_⟩, ih htail free' v⟩
      rcases hcase with ⟨rfl, -⟩ | ⟨-, rfl, -⟩
      · exact hp.2
      · exact hnew

theorem renamed_append {c : Char} (hc : c ≠ '=') (v : List Char) (qs : List (Char × List Char)) : ∀ free w,
    renamed blobGrammar orig new free w (ps ++ (c, v) :: qs) =
      renamed blobGrammar orig new free w ps ++ (c, v) :: renamed blobGrammar orig new true v qs := by
  induction ps with
  | nil =>
      intro free w
      have hlink : blobGrammar.links c = false := beq_eq_false_iff_ne.mpr hc
      simp [renamed, hlink]
  | cons p ps ih =>
      obtain ⟨d, u⟩ := p
      intro free w
      rw [List.cons_append, renamed, renamed]
      split
      · rw [ih, List.cons_append]
      · rw [ih, List.cons_append]

theorem renamed_seps : ∀ free w, (renamed blobGrammar orig new free w ps).map Prod.fst = ps.map Prod.fst := by
  induction ps with
  | nil => exact fun _ _ => rfl
  | cons p ps ih =>
      obtain ⟨c, v⟩ := p
      intro free w
      obtain ⟨v', free', hcons, -⟩ := renamed_cons (G := blobGrammar) orig new free w c v ps
      rw [hcons, List.map_cons, List.map_cons, ih]

end one

theorem join_append (ps qs : List (Char × List Char)) : join (ps ++ qs) = join ps ++ join qs := List.flatMap_append

theorem areWords_append {ps qs : List (Char × List Char)} (hps : AreWords ps) (hqs : AreWords qs) :
    AreWords (ps ++ qs) := fun p hp => (List.mem_append.mp hp).elim (hps p) (hqs p)

theorem break_words {w : List Char} {ps : List (Char × List Char)} (hps : AreWords ps) :
    (∀ c ∈ w ++ join ps, isBreak c = false) → ∀ p ∈ ps, p.1 = '=' := by
  intro h p hp
  have hc := h p.1 (List.mem_append_right _ (List.mem_flatMap.mpr ⟨p, hp, List.mem_cons_self⟩))
  by_contra hne
  rw [break_of_not_word (hps p hp).1 hne] at hc
  cases hc

theorem words_plain {w : List Char} {ps : List (Char × List Char)} (hw : IsWord w) (hps : AreWords ps)
    (h : ∀ p ∈ ps, p.1 = '=') : ∀ c ∈ w ++ join ps, isBreak c = false := by
  have hword {c : Char} (hc : isWordChar c = true) : isBreak c = false := by
    rw [isBreak, hc]
    rfl
  intro c hc
  rcases List.mem_append.mp hc with hc | hc
  · exact hword (hw c hc)
  · obtain ⟨p, hp, hc⟩ := List.mem_flatMap.mp hc
    rcases List.mem_cons.mp hc with rfl | hc
    · rw [h p hp]
      decide
    · exact hword ((hps p hp).2 c hc)

/-- A replacement of a name rewrites a text between its breaks. -/
theorem sub_rewrites {orig new : String} (horig : IsWord orig.toList) (hnew : IsWord new.toList) :
    Rewrites isBreak (subFrom (renameAt orig new) 0) where
  nil := rfl
  brk := fun a c b hc => by
    obtain ⟨hcword, hceq⟩ := isBreak_iff.mp hc
    obtain ⟨hw, hps⟩ := words_areWords a
    obtain ⟨hv, hqs⟩ := words_areWords b
    have hall : AreWords ((words a).2 ++ (c, (words b).1) :: (words b).2) :=
      areWords_append hps (List.forall_mem_cons.mpr ⟨⟨hcword, hv⟩, hqs⟩)
    have htext : a ++ c :: b = (words a).1 ++ join ((words a).2 ++ (c, (words b).1) :: (words b).2) := by
      rw [join_append, ← List.append_assoc, join_words, join_cons, join_words]
    have ha := (@sub_renamed orig new horig (words a).2 hps (words a).1 hw).1
    have hb := (@sub_renamed orig new horig (words b).2 hqs (words b).1 hv).1
    rw [join_words] at ha hb
    rw [htext, (sub_renamed horig _ hall _ hw).1, renamed_append hceq, join_append, join_cons,
      ← List.append_assoc, ← ha, ← hb]
  plain := fun a ha => by
    obtain ⟨hw, hps⟩ := words_areWords a
    have hsub := (@sub_renamed orig new horig (words a).2 hps (words a).1 hw).1
    rw [join_words] at hsub
    have hseps := @renamed_seps orig.toList new.toList (words a).2 true (words a).1
    constructor
    · rw [hsub]
      refine words_plain hw (renamed_areWords hnew hps _ _) (fun p hp => ?_)
      have hmem := List.mem_map_of_mem (f := Prod.fst) hp
      rw [hseps] at hmem
      obtain ⟨q, hq, heq⟩ := List.mem_map.mp hmem
      rw [← heq]
      exact break_words hps (by rwa [join_words]) q hq
    · intro hnil
      rw [hsub, List.append_eq_nil_iff] at hnil
      have hempty : (words a).2 = [] := by
        cases hq : renamed blobGrammar orig.toList new.toList true (words a).1 (words a).2 with
        | nil =>
            rw [hq] at hseps
            exact List.map_eq_nil_iff.mp hseps.symm
        | cons q qs =>
            obtain ⟨c, v⟩ := q
            rw [hq, join_cons] at hnil
            cases hnil.2
      rw [← join_words a, hnil.1, hempty]
      rfl

/-- The entries that apply_blob_renames replaces. -/
def effective (entries : List (String × String)) : List (String × String) :=
  entries.filter (fun e => !decide (e.1 = "" ∨ e.2 = "" ∨ e.1 = e.2))

def rewriteText (entries : List (String × String)) (text : List Char) : List Char :=
  entries.foldl (fun text e => subFrom (renameAt e.1 e.2) 0 text) text

theorem toList_applyBlobRenames (text : String) (renames : Renames) :
    (applyBlobRenames text renames).toList = rewriteText (effective renames.entries) text.toList := by
  rw [applyBlobRenames]
  induction renames.entries generalizing text with
  | nil => rfl
  | cons e entries ih =>
      rw [List.foldl_cons, ih, renameBlob]
      by_cases hskip : e.1 = "" ∨ e.2 = "" ∨ e.1 = e.2
      · rw [if_pos hskip, effective, effective, List.filter_cons_of_neg (by rw [decide_eq_true hskip]; decide)]
      · rw [if_neg hskip, effective, effective, List.filter_cons_of_pos (by rw [decide_eq_false hskip]; rfl),
          rewriteText, rewriteText, List.foldl_cons, String.toList_ofList]

def asLists (e : String × String) : List Char × List Char := (e.1.toList, e.2.toList)

def AllWords (entries : List (String × String)) : Prop :=
  ∀ e ∈ entries, IsWord e.1.toList ∧ IsWord e.2.toList

theorem rewriteText_words {entries : List (String × String)} (hentries : AllWords entries) {w : List Char}
    {ps : List (Char × List Char)} (hw : IsWord w) (hps : AreWords ps) :
    rewriteText entries (w ++ join ps) = w ++ join (renamedAll blobGrammar (entries.map asLists) w ps) ∧
      AreWords (renamedAll blobGrammar (entries.map asLists) w ps) := by
  induction entries generalizing ps with
  | nil => exact ⟨rfl, hps⟩
  | cons e entries ih =>
      obtain ⟨⟨horig, hnew⟩, htail⟩ := List.forall_mem_cons.mp hentries
      rw [rewriteText, List.foldl_cons, (sub_renamed horig ps hps w hw).1]
      exact ih htail (renamed_areWords hnew hps true w)

theorem rewriteText_rewrites {entries : List (String × String)} (hentries : AllWords entries) :
    Rewrites isBreak (rewriteText entries) := by
  induction entries with
  | nil => exact Rewrites.id
  | cons e entries ih =>
      obtain ⟨⟨horig, hnew⟩, htail⟩ := List.forall_mem_cons.mp hentries
      exact (sub_rewrites horig hnew).comp (ih htail)

theorem isIdentifier_b {name : String} (h : IsWord name.toList) : isIdentifier ("b" ++ name) = true := by
  rw [isIdentifier, String.toList_append]
  exact Bool.and_eq_true_iff.mpr ⟨by decide, List.all_eq_true.mpr h⟩

theorem isKeyword_b {name : String} (h : isIdentifier name = false) :
    isKeyword ("b" ++ name).toList = isKeyword name.toList := by
  rw [String.toList_append, Bool.eq_iff_iff]
  constructor
  · intro hkey
    refine (isKeyword_cases hkey).resolve_left ?_
    rintro ⟨keyword, hkeyword, heq⟩
    have hlob : name.toList = "lob".toList := by
      obtain rfl | rfl | rfl := keyword_cases hkeyword
      · have htail := (List.cons.inj heq).2
        exact (List.append_cancel_right (@id ("lob".toList ++ ['='] = name.toList ++ ['=']) htail)).symm
      · exact absurd (List.cons.inj heq).1 (by decide)
      · exact absurd (List.cons.inj heq).1 (by decide)
    rw [String.toList_injective hlob] at h
    exact absurd h (by decide)
  · exact isKeyword_cons

/-- Rename entries as append_blob_cli_lines makes them: names with their safe names or
with nothing. -/
structure Made (entries : List (String × String)) : Prop where
  nodup : (entries.map Prod.fst).Nodup
  word : ∀ e ∈ entries, IsWord e.1.toList ∧ e.1 ≠ ""
  safe : ∀ e ∈ entries, e.2 = "" ∨ e.2 = safeBlobName e.1

theorem Made.mem_effective {entries : List (String × String)} (h : Made entries) {e : String × String}
    (he : e ∈ effective entries) : e ∈ entries ∧ isIdentifier e.1 = false ∧ e.2 = "b" ++ e.1 := by
  obtain ⟨hmem, hskip⟩ := List.mem_filter.mp he
  rw [Bool.not_eq_true', decide_eq_false_iff_not, not_or, not_or] at hskip
  obtain ⟨-, hne, hdiff⟩ := hskip
  have hsafe := (h.safe e hmem).resolve_left hne
  rw [safeBlobName] at hsafe
  split at hsafe
  next => exact absurd hsafe.symm hdiff
  next hident => exact ⟨hmem, Bool.eq_false_iff.mpr hident, hsafe⟩

theorem Made.allWords {entries : List (String × String)} (h : Made entries) : AllWords (effective entries) := by
  intro e he
  obtain ⟨hmem, -, heq⟩ := h.mem_effective he
  refine ⟨(h.word e hmem).1, ?_⟩
  rw [heq, String.toList_append]
  exact List.forall_mem_cons.mpr ⟨by decide, (h.word e hmem).1⟩

theorem Made.entries {entries : List (String × String)} (h : Made entries) :
    Entries blobGrammar ((effective entries).map asLists) where
  nodup := by
    rw [List.map_map]
    have hsub : ((effective entries).map Prod.fst).Sublist (entries.map Prod.fst) := List.filter_sublist.map _
    have hmap := (h.nodup.sublist hsub).map (fun _ _ heq => String.toList_injective heq)
    rwa [List.map_map] at hmap
  fair := by
    intro p hp
    obtain ⟨e, he, rfl⟩ := List.mem_map.mp hp
    obtain ⟨hmem, hident, heq⟩ := h.mem_effective he
    refine ⟨?_, ?_, ?_⟩
    · rw [asLists, heq]
      exact isKeyword_b hident
    · intro hempty
      exact (h.word e hmem).2 (String.toList_injective hempty)
    · rw [asLists, heq, String.toList_append]
      exact List.cons_ne_nil _ _
  apart := by
    intro p hp q hq hpq
    obtain ⟨e, he, rfl⟩ := List.mem_map.mp hp
    obtain ⟨e', he', rfl⟩ := List.mem_map.mp hq
    obtain ⟨hmem, -, heq⟩ := h.mem_effective he'
    have hident := isIdentifier_b (h.word e' hmem).1
    rw [← heq, ← String.toList_injective hpq, (h.mem_effective he).2.1] at hident
    cases hident

/-- The names that a text refers to, in order. -/
def references (text : String) : List String := finditer blobReference text.toList

/-- When apply_blob_renames replaces the name, some reference to it is replaced, or is
left behind. -/
def metReference (replaced : Bool) (name text : String) : Bool :=
  meets blobGrammar name.toList replaced true true (words text.toList).1 (words text.toList).2

theorem references_reads (text : String) : references text =
    (reads blobGrammar true (words text.toList).1 (words text.toList).2).map String.ofList := by
  obtain ⟨hw, hps⟩ := words_areWords text.toList
  have hreads := (finditer_reads _ hps _ hw).1
  rwa [join_words] at hreads

theorem references_word {name text : String} (h : name ∈ references text) : IsWord name.toList ∧ name ≠ "" := by
  rw [references_reads] at h
  obtain ⟨v, hv, rfl⟩ := List.mem_map.mp h
  obtain ⟨hne, sep, hmem⟩ := mem_reads hv
  rw [String.toList_ofList]
  refine ⟨((words_areWords text.toList).2 _ hmem).2, fun hempty => hne ?_⟩
  exact String.ofList_injective hempty

section renames

variable {renames : Renames}

theorem references_rewritten (hmade : Made renames.entries) (text : String) :
    references (applyBlobRenames text renames) =
    (reads blobGrammar true (words text.toList).1 (renamedAll blobGrammar
      ((effective renames.entries).map asLists) (words text.toList).1 (words text.toList).2)).map
        String.ofList := by
  obtain ⟨hw, hps⟩ := words_areWords text.toList
  obtain ⟨htext, hwords⟩ := rewriteText_words hmade.allWords hw hps
  rw [join_words] at htext
  rw [references, toList_applyBlobRenames, htext, (finditer_reads _ hwords _ hw).1]

/-- Every reference is renamed as an entry says, or kept. -/
theorem references_renamed (hmade : Made renames.entries) (text : String) :
    List.Forall₂ (fun n ident => ident = n ∨ (n, ident) ∈ effective renames.entries)
      (references text) (references (applyBlobRenames text renames)) := by
  rw [references_rewritten hmade, references_reads, List.forall₂_map_left_iff, List.forall₂_map_right_iff]
  refine (reads_renamedAll hmade.entries (words text.toList).1 (words text.toList).2).imp (fun n ident h => ?_)
  rcases h with rfl | hmem
  · exact Or.inl rfl
  · obtain ⟨e, he, heq⟩ := List.mem_map.mp hmem
    rw [asLists, Prod.mk.injEq] at heq
    rw [← heq.1, ← heq.2, String.ofList_toList, String.ofList_toList]
    exact Or.inr he

theorem met_reference_iff (hmade : Made renames.entries) (replaced : Bool) (text : String) {e : String × String}
    (he : e ∈ effective renames.entries) :
    (e.1, if replaced then e.2 else e.1) ∈
        (references text).zip (references (applyBlobRenames text renames)) ↔
      metReference replaced e.1 text = true := by
  have hmet := metAll_iff hmade.entries (List.mem_map_of_mem (f := asLists) he) replaced (words text.toList).1
    (words text.toList).2
  have hpair : (if replaced = true then (asLists e).2 else (asLists e).1) =
      (if replaced = true then e.2 else e.1).toList := by
    cases replaced <;> rfl
  rw [hpair, show (asLists e).1 = e.1.toList from rfl] at hmet
  rw [metReference, ← hmet, references_rewritten hmade, references_reads, List.zip_map, List.mem_map]
  constructor
  · rintro ⟨⟨n, ident⟩, hmem, heq⟩
    obtain ⟨hn, hident⟩ := Prod.mk.inj heq
    have hname : n = e.1.toList := by rw [← hn, String.toList_ofList]
    have hlist : ident = (if replaced = true then e.2 else e.1).toList := by rw [← hident, String.toList_ofList]
    rwa [hname, hlist] at hmem
  · intro hmem
    exact ⟨_, hmem, by rw [Prod.map_apply, String.ofList_toList, String.ofList_toList]⟩

end renames

end Blockchecks.BlobRename
