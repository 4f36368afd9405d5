import Blockchecks.BlobScan
import Blockchecks.WordRefs

namespace Blockchecks.BlobWords

open StrategyText NfqwsConfig BlobScan WordRefs

def isKeyword (w : List Char) : Bool := "blob".toList.isSuffixOf w || "pattern".toList.isSuffixOf w

/-- The words of a strategy text, where an equals sign links a keyword to a name. -/
def blobGrammar : Grammar (List Char) Char where
  isKey := isKeyword
  links := (· == '=')
  empty := []

/-- The first word of a text and the other characters, each with the word behind it. -/
def words : List Char → List Char × List (Char × List Char)
  | [] => ([], [])
  | c :: cs =>
      if isWordChar c then (c :: (words cs).1, (words cs).2) else ([], (c, (words cs).1) :: (words cs).2)

def join (ps : List (Char × List Char)) : List Char := ps.flatMap (fun p => p.1 :: p.2)

@[simp] theorem join_nil : join [] = [] := rfl

@[simp] theorem join_cons (c : Char) (v : List Char) (ps : List (Char × List Char)) :
    join ((c, v) :: ps) = c :: (v ++ join ps) := by
  simp [join]

def IsWord (w : List Char) : Prop := ∀ c ∈ w, isWordChar c = true

def AreWords (ps : List (Char × List Char)) : Prop := ∀ p ∈ ps, isWordChar p.1 = false ∧ IsWord p.2

theorem join_words (text : List Char) : (words text).1 ++ join (words text).2 = text := by
  induction text with
  | nil => rfl
  | cons c cs ih =>
      rw [words]
      split
      · exact congrArg (c :: ·) ih
      · rw [join_cons, List.nil_append, ih]

theorem words_areWords (text : List Char) : IsWord (words text).1 ∧ AreWords (words text).2 := by
  induction text with
  | nil => exact ⟨fun _ h => (List.not_mem_nil h).elim, fun _ h => (List.not_mem_nil h).elim⟩
  | cons c cs ih =>
      rw [words]
      split
      next hc => exact ⟨List.forall_mem_cons.mpr ⟨hc, ih.1⟩, ih.2⟩
      next hc =>
        refine ⟨fun _ h => (List.not_mem_nil h).elim, List.forall_mem_cons.mpr ⟨⟨?_, ih.1⟩, ih.2⟩⟩
        exact Bool.eq_false_iff.mpr hc

theorem AreWords.head {ps : List (Char × List Char)} (h : AreWords ps) : (join ps).head?.any isWordChar = false := by
  cases ps with
  | nil => rfl
  | cons p ps => exact (h p List.mem_cons_self).1

theorem takeWhile_word {v rest : List Char} (hv : IsWord v) (hrest : rest.head?.any isWordChar = false) :
    (v ++ rest).takeWhile isWordChar = v := by
  rw [List.takeWhile_append_of_pos hv]
  cases rest with
  | nil => exact List.append_nil v
  | cons c rest =>
      have hc : isWordChar c = false := hrest
      rw [List.takeWhile_cons_of_neg (Bool.eq_false_iff.mp hc), List.append_nil]

/-- A word ends where the first other character stands. -/
theorem word_inj {a b u v : List Char} {x y : Char} (ha : IsWord a) (hb : IsWord b) (hx : isWordChar x = false)
    (hy : isWordChar y = false) (h : a ++ x :: u = b ++ y :: v) : a = b ∧ x = y ∧ u = v := by
  have hx' : ¬ isWordChar x = true := Bool.eq_false_iff.mp hx
  have hy' : ¬ isWordChar y = true := Bool.eq_false_iff.mp hy
  have htake := congrArg (List.takeWhile isWordChar) h
  rw [List.takeWhile_append_of_pos ha, List.takeWhile_append_of_pos hb, List.takeWhile_cons_of_neg hx',
    List.takeWhile_cons_of_neg hy', List.append_nil, List.append_nil] at htake
  subst htake
  obtain ⟨hxy, huv⟩ := List.cons.inj (List.append_cancel_left h)
  exact ⟨rfl, hxy, huv⟩

theorem keyword_word {keyword : String} (h : keyword ∈ blobKeywords) :
    ∃ word, keyword.toList = word ++ ['='] ∧ IsWord word ∧ isKeyword word = true := by
  obtain rfl | rfl | rfl := keyword_cases h
  · exact ⟨"blob".toList, rfl, forall_mem_of_all (by decide), by decide⟩
  · exact ⟨"pattern".toList, rfl, forall_mem_of_all (by decide), by decide⟩
  · exact ⟨"seqovl_pattern".toList, rfl, forall_mem_of_all (by decide), by decide⟩

theorem isKeyword_cons {c : Char} {w : List Char} (h : isKeyword w = true) : isKeyword (c :: w) = true := by
  simp only [isKeyword, Bool.or_eq_true, List.isSuffixOf_iff_suffix] at h ⊢
  exact h.imp (fun h => h.trans (List.suffix_cons c w)) (fun h => h.trans (List.suffix_cons c w))

/-- The longest keyword at the end of a word, or a shorter one. -/
theorem isKeyword_cases {c : Char} {w : List Char} (h : isKeyword (c :: w) = true) :
    (∃ keyword ∈ blobKeywords, keyword.toList = (c :: w) ++ ['=']) ∨ isKeyword w = true := by
  simp only [isKeyword, Bool.or_eq_true, List.isSuffixOf_iff_suffix, List.suffix_cons_iff] at h ⊢
  rcases h with (h | h) | h | h
  · exact Or.inl ⟨"blob=", by decide, by rw [← h]; rfl⟩
  · exact Or.inr (Or.inl h)
  · exact Or.inl ⟨"pattern=", by decide, by rw [← h]; rfl⟩
  · exact Or.inr (Or.inr h)

section scan

variable {w v rest : List Char} {c : Char}

/-- A match at a keyword starts with the whole rest of the word. -/
theorem keyword_at {keyword : String} {tail : List Char} (hkeyword : keyword ∈ blobKeywords) (hw : IsWord w)
    (hc : isWordChar c = false) (h : w ++ c :: rest = keyword.toList ++ tail) :
    keyword.toList = w ++ ['='] ∧ isKeyword w = true ∧ c = '=' ∧ rest = tail := by
  obtain ⟨word, heq, hword, hkey⟩ := keyword_word hkeyword
  rw [heq, List.append_assoc, List.singleton_append] at h
  obtain ⟨rfl, rfl, rfl⟩ := word_inj hw hword hc (by decide) h
  exact ⟨heq, hkey, rfl, rfl⟩

theorem finditer_word (hw : IsWord w) (hc : isWordChar c = false)
    (h : isKeyword w = true → c = '=' → rest.head?.any isWordChar = false) :
    finditer blobReference (w ++ c :: rest) = finditer blobReference rest := by
  have hnone (w : List Char) (hw : IsWord w)
      (h : isKeyword w = true → c = '=' → rest.head?.any isWordChar = false) :
      blobReference (w ++ c :: rest) = none := by
    refine Option.eq_none_iff_forall_not_mem.mpr (fun p hp => ?_)
    obtain ⟨keyword, hkeyword, tail, htext, hwhole, -⟩ := reference_some hp
    obtain ⟨-, hkey, rfl, rfl⟩ := keyword_at hkeyword hw hc htext
    have hhead := h hkey rfl
    obtain ⟨d, value, hvalue⟩ := List.exists_cons_of_ne_nil hwhole.ne_nil
    rw [hvalue, List.cons_append, List.head?_cons, Option.any_some] at hhead
    have hd := hwhole.chars d (hvalue ▸ List.mem_cons_self)
    rw [hhead] at hd
    cases hd
  induction w with
  | nil => exact finditer_none (hnone [] hw h)
  | cons d w ih =>
      have hnext := ih (List.forall_mem_cons.mp hw).2 (fun hkey => h (isKeyword_cons hkey))
      rw [← hnext]
      exact finditer_none (hnone (d :: w) hw h)

theorem finditer_keyword (hw : IsWord w) (hkey : isKeyword w = true) (hv : Whole isWordChar v rest) :
    finditer blobReference (w ++ '=' :: (v ++ rest)) = String.ofList v :: finditer blobReference rest := by
  induction w with
  | nil => exact absurd hkey (by decide)
  | cons d w ih =>
      by_cases hexact : ∃ keyword ∈ blobKeywords, keyword.toList = (d :: w) ++ ['=']
      · obtain ⟨keyword, hkeyword, heq⟩ := hexact
        have hfound := finditer_whole hkeyword hv
        rw [heq, List.append_assoc, List.singleton_append] at hfound
        exact hfound
      · have hnone : blobReference (d :: w ++ '=' :: (v ++ rest)) = none := by
          refine Option.eq_none_iff_forall_not_mem.mpr (fun p hp => hexact ?_)
          obtain ⟨keyword, hkeyword, tail, htext, -, -⟩ := reference_some hp
          exact ⟨keyword, hkeyword, (keyword_at hkeyword hw (by decide) htext).1⟩
        rw [← ih (List.forall_mem_cons.mp hw).2 ((isKeyword_cases hkey).resolve_left hexact)]
        exact finditer_none hnone

theorem finditer_end (hw : IsWord w) : finditer blobReference w = [] := by
  refine finditer_no_equals (fun h => ?_)
  have hequals := hw '=' h
  exact absurd hequals (by decide)

end scan

/-- The names that a strategy text refers to, by its words. -/
theorem finditer_reads (ps : List (Char × List Char)) (hps : AreWords ps) : ∀ w, IsWord w →
    finditer blobReference (w ++ join ps) = (reads blobGrammar true w ps).map String.ofList ∧
      finditer blobReference (join ps) = (reads blobGrammar false w ps).map String.ofList := by
  induction ps with
  | nil => exact fun w hw => ⟨by rw [join_nil, List.append_nil, finditer_end hw]; rfl, rfl⟩
  | cons p ps ih =>
      obtain ⟨c, v⟩ := p
      obtain ⟨⟨hc, hv⟩, htail⟩ := List.forall_mem_cons.mp hps
      intro w hw
      obtain ⟨hfree, htaken⟩ := ih htail v hv
      have hskip : finditer blobReference (c :: (v ++ join ps)) = finditer blobReference (v ++ join ps) :=
        finditer_word (w := []) (fun _ h => (List.not_mem_nil h).elim) hc (fun h => absurd h (by decide))
      constructor
      · rw [reads, join_cons]
        split
        next hread =>
          simp only [blobGrammar, Bool.and_eq_true, Bool.and_true, beq_iff_eq] at hread
          obtain ⟨⟨rfl, hkey⟩, hne⟩ := hread
          rw [finditer_keyword hw hkey ⟨of_decide_eq_true hne, hv, AreWords.head htail⟩, htaken]
          rfl
        next hread =>
          rw [← hfree]
          by_cases hcase : isKeyword w = true ∧ c = '='
          · obtain ⟨hkey, rfl⟩ := hcase
            have hempty : v = [] := by
              by_contra hne
              exact hread (by simp [blobGrammar, hkey, hne])
            subst hempty
            exact finditer_word hw hc (fun _ _ => AreWords.head htail)
          · exact finditer_word hw hc (fun hkey heq => absurd ⟨hkey, heq⟩ hcase)
      · rw [reads, join_cons, hskip, hfree, if_neg (by simp)]

section sub

variable {matchAt : List Char → Option (Nat × List Char)}

theorem subFrom_append (a b : List Char) : subFrom matchAt a.length (a ++ b) = subFrom matchAt 0 b := by
  induction a with
  | nil => rfl
  | cons c a ih => exact ih

theorem subFrom_none {c : Char} {cs : List Char} (h : matchAt (c :: cs) = none) :
    subFrom matchAt 0 (c :: cs) = c :: subFrom matchAt 0 cs := by
  rw [subFrom, h]

theorem subFrom_some {a b r : List Char} (ha : a ≠ []) (h : matchAt (a ++ b) = some (a.length, r)) :
    subFrom matchAt 0 (a ++ b) = r ++ subFrom matchAt 0 b := by
  cases a with
  | nil => exact absurd rfl ha
  | cons c a =>
      rw [List.cons_append] at h ⊢
      rw [subFrom, h]
      exact congrArg (r ++ ·) (subFrom_append a b)

end sub

section rename

variable {orig new : String} {w rest : List Char} {c : Char}

theorem renameAt_some {text : List Char} {p : Nat × List Char} (h : renameAt orig new text = some p) :
    ∃ keyword ∈ blobKeywords, ∃ rest, text = keyword.toList ++ (orig.toList ++ rest) ∧
      rest.head?.any isWordChar = false := by
  obtain ⟨keyword, hfind, -⟩ := Option.map_eq_some_iff.mp h
  have hmatch := List.find?_some hfind
  rw [Bool.and_eq_true, startsWith, List.isPrefixOf_iff_prefix] at hmatch
  obtain ⟨⟨rest, rfl⟩, hends⟩ := hmatch
  rw [List.drop_left, Bool.not_eq_true'] at hends
  exact ⟨keyword, List.mem_of_find?_eq_some hfind, rest, by rw [String.toList_append, List.append_assoc], hends⟩

theorem find_keyword {p : String → Bool} {keyword : String} (hkeyword : keyword ∈ blobKeywords)
    (hself : p keyword = true) (hother : ∀ k ∈ blobKeywords, k ≠ keyword → ¬ p k = true) :
    blobKeywords.find? p = some keyword := by
  rw [blobKeywords]
  obtain rfl | rfl | rfl := keyword_cases hkeyword
  · exact List.find?_cons_of_pos hself
  · rw [List.find?_cons_of_neg (hother "blob=" (by decide) (by decide))]
    exact List.find?_cons_of_pos hself
  · rw [List.find?_cons_of_neg (hother "blob=" (by decide) (by decide)),
      List.find?_cons_of_neg (hother "pattern=" (by decide) (by decide))]
    exact List.find?_cons_of_pos hself

/-- No keyword starts like another. -/
theorem keyword_eq {k keyword : String} (hk : k ∈ blobKeywords) (hkeyword : keyword ∈ blobKeywords)
    {u v : List Char} (h : k.toList ++ u = keyword.toList ++ v) : k = keyword := by
  have hhead : k.toList.head? = keyword.toList.head? := by
    have hne {k : String} (hk : k ∈ blobKeywords) : k.toList ≠ [] := by
      obtain ⟨word, heq, -⟩ := keyword_word hk
      rw [heq]
      simp
    have hheads := congrArg List.head? h
    rwa [List.head?_append_of_ne_nil _ (hne hk), List.head?_append_of_ne_nil _ (hne hkeyword)] at hheads
  obtain rfl | rfl | rfl := keyword_cases hk <;> obtain rfl | rfl | rfl := keyword_cases hkeyword <;>
    first | rfl | exact absurd hhead (by decide)

theorem renameAt_whole {keyword : String} (hkeyword : keyword ∈ blobKeywords)
    (hends : rest.head?.any isWordChar = false) :
    renameAt orig new (keyword.toList ++ (orig.toList ++ rest)) =
      some ((keyword.toList ++ orig.toList).length, keyword.toList ++ new.toList) := by
  rw [renameAt, find_keyword hkeyword]
  · simp only [Option.map_some, String.toList_append]
  · rw [Bool.and_eq_true, startsWith, List.isPrefixOf_iff_prefix, ← List.append_assoc, String.toList_append,
      List.drop_left, hends]
    exact ⟨List.prefix_append _ _, rfl⟩
  · intro k hk hne
    rw [Bool.and_eq_true, startsWith, List.isPrefixOf_iff_prefix, String.toList_append]
    rintro ⟨⟨tail, htail⟩, -⟩
    rw [List.append_assoc] at htail
    exact hne (keyword_eq hk hkeyword htail)

/-- A word in which nothing is replaced. -/
theorem sub_word (hw : IsWord w) (hc : isWordChar c = false)
    (h : isKeyword w = true → c = '=' → ∀ tail, rest = orig.toList ++ tail → tail.head?.any isWordChar = true) :
    subFrom (renameAt orig new) 0 (w ++ c :: rest) = w ++ c :: subFrom (renameAt orig new) 0 rest := by
  have hnone (w : List Char) (hw : IsWord w)
      (h : isKeyword w = true → c = '=' → ∀ tail, rest = orig.toList ++ tail → tail.head?.any isWordChar = true) :
      renameAt orig new (w ++ c :: rest) = none := by
    refine Option.eq_none_iff_forall_not_mem.mpr (fun p hp => ?_)
    obtain ⟨keyword, hkeyword, tail, htext, hends⟩ := renameAt_some hp
    obtain ⟨-, hkey, rfl, rfl⟩ := keyword_at hkeyword hw hc htext
    have hhead := h hkey rfl tail rfl
    rw [hends] at hhead
    cases hhead
  induction w with
  | nil => exact subFrom_none (hnone [] hw h)
  | cons d w ih =>
      have hnext := ih (List.forall_mem_cons.mp hw).2 (fun hkey => h (isKeyword_cons hkey))
      rw [List.cons_append, List.cons_append, ← hnext]
      exact subFrom_none (hnone (d :: w) hw h)

theorem sub_keyword (hw : IsWord w) (hkey : isKeyword w = true) (hends : rest.head?.any isWordChar = false) :
    subFrom (renameAt orig new) 0 (w ++ '=' :: (orig.toList ++ rest)) =
      w ++ '=' :: (new.toList ++ subFrom (renameAt orig new) 0 rest) := by
  induction w with
  | nil => exact absurd hkey (by decide)
  | cons d w ih =>
      by_cases hexact : ∃ keyword ∈ blobKeywords, keyword.toList = (d :: w) ++ ['=']
      · obtain ⟨keyword, hkeyword, heq⟩ := hexact
        have hmatch := @renameAt_whole orig new _ _ hkeyword hends
        rw [← List.append_assoc] at hmatch
        have hne : keyword.toList ++ orig.toList ≠ [] := by
          rw [heq]
          simp
        have hfound := subFrom_some hne hmatch
        rw [heq] at hfound
        simpa only [List.append_assoc, List.cons_append, List.nil_append] using hfound
      · have hnone : renameAt orig new (d :: w ++ '=' :: (orig.toList ++ rest)) = none := by
          refine Option.eq_none_iff_forall_not_mem.mpr (fun p hp => hexact ?_)
          obtain ⟨keyword, hkeyword, tail, htext, -⟩ := renameAt_some hp
          exact ⟨keyword, hkeyword, (keyword_at hkeyword hw (by decide) htext).1⟩
        rw [List.cons_append, List.cons_append,
          ← ih (List.forall_mem_cons.mp hw).2 ((isKeyword_cases hkey).resolve_left hexact)]
        exact subFrom_none hnone

theorem sub_end (hw : IsWord w) : subFrom (renameAt orig new) 0 w = w := by
  induction w with
  | nil => rfl
  | cons d w ih =>
      have hnone : renameAt orig new (d :: w) = none := by
        refine Option.eq_none_iff_forall_not_mem.mpr (fun p hp => ?_)
        obtain ⟨keyword, hkeyword, tail, htext, -⟩ := renameAt_some hp
        obtain ⟨word, heq, -⟩ := keyword_word hkeyword
        have hequals := hw '=' (by rw [htext, heq]; simp)
        exact absurd hequals (by decide)
      rw [subFrom_none hnone, ih (List.forall_mem_cons.mp hw).2]

/-- What re.sub makes of a strategy text, by its words. -/
theorem sub_renamed (horig : IsWord orig.toList) (ps : List (Char × List Char)) (hps : AreWords ps) : ∀ w, IsWord w →
    subFrom (renameAt orig new) 0 (w ++ join ps) =
        w ++ join (renamed blobGrammar orig.toList new.toList true w ps) ∧
      subFrom (renameAt orig new) 0 (join ps) = join (renamed blobGrammar orig.toList new.toList false w ps) := by
  induction ps with
  | nil => exact fun w hw => ⟨by rw [join_nil, List.append_nil, sub_end hw]; simp [renamed], rfl⟩
  | cons p ps ih =>
      obtain ⟨c, v⟩ := p
      obtain ⟨⟨hc, hv⟩, htail⟩ := List.forall_mem_cons.mp hps
      intro w hw
      have hvword : IsWord v := hv
      obtain ⟨hfree, htaken⟩ := ih htail v hvword
      have hwhole {tail : List Char} (h : v ++ join ps = orig.toList ++ tail)
          (hends : tail.head?.any isWordChar = false) : v = orig.toList := by
        rw [← takeWhile_word hvword (AreWords.head htail), h, takeWhile_word horig hends]
      have hskip : subFrom (renameAt orig new) 0 (c :: (v ++ join ps)) =
          c :: subFrom (renameAt orig new) 0 (v ++ join ps) :=
        sub_word (w := []) (fun _ h => (List.not_mem_nil h).elim) hc (fun h => absurd h (by decide))
      constructor
      · rw [renamed, join_cons]
        split
        next hsub =>
          simp only [blobGrammar, Bool.and_eq_true, Bool.and_true, beq_iff_eq] at hsub
          obtain ⟨⟨rfl, hkey⟩, heq⟩ := hsub
          rw [of_decide_eq_true heq, sub_keyword hw hkey (AreWords.head htail), join_cons]
          rw [of_decide_eq_true heq] at htaken
          rw [htaken]
        next hsub =>
          rw [join_cons, ← hfree]
          refine sub_word hw hc (fun hkey heq tail htext => ?_)
          by_contra hends
          exact hsub (by simp [blobGrammar, hkey, heq, hwhole htext (Bool.eq_false_iff.mpr hends)])
      · rw [renamed, join_cons, hskip, hfree, if_neg (by simp), join_cons]

end rename

end Blockchecks.BlobWords
