import Blockchecks.ExportNumbers

namespace Blockchecks.BlobScan

open StrategyText LuaConf NfqwsConfig ExportConf ExportFilter ConfRun Escaping ExportNumbers

section finditer

variable {α : Type} {matchAt : List Char → Option (Nat × α)}

theorem finditerFrom_append (a b : List Char) : finditerFrom matchAt a.length (a ++ b) = finditer matchAt b := by
  induction a with
  | nil => rfl
  | cons c a ih => exact ih

theorem finditer_none {c : Char} {cs : List Char} (h : matchAt (c :: cs) = none) :
    finditer matchAt (c :: cs) = finditer matchAt cs := by
  rw [finditer, finditerFrom, h]
  rfl

theorem finditer_some {a b : List Char} {v : α} (ha : a ≠ []) (h : matchAt (a ++ b) = some (a.length, v)) :
    finditer matchAt (a ++ b) = v :: finditer matchAt b := by
  cases a with
  | nil => exact absurd rfl ha
  | cons c a =>
      rw [List.cons_append] at h ⊢
      rw [finditer, finditerFrom, h]
      exact congrArg (v :: ·) (finditerFrom_append a b)

end finditer

/-- A colon or a space, which ends every value and is in no keyword. -/
def isStop (c : Char) : Bool := c == ':' || isSpace c

def isValueChar (c : Char) : Bool := !isSpace c && c != ':'

/-- A value of the class behind one of the keywords. -/
def reference (cls : Char → Bool) (text : List Char) : Option (Nat × String) :=
  blobKeywords.findSome? (fun keyword => assignment keyword cls text)

theorem keyword_cases {keyword : String} (h : keyword ∈ blobKeywords) :
    keyword = "blob=" ∨ keyword = "pattern=" ∨ keyword = "seqovl_pattern=" := by
  simpa [blobKeywords] using h

theorem keyword_chars {keyword : String} (h : keyword ∈ blobKeywords) :
    (∃ word, keyword.toList = word ++ ['='] ∧ ∀ c ∈ word, isWordChar c = true) ∧
      ∀ c ∈ keyword.toList, isStop c = false := by
  obtain rfl | rfl | rfl := keyword_cases h
  · exact ⟨⟨"blob".toList, rfl, forall_mem_of_all (by decide)⟩, forall_mem_of_all (by decide)⟩
  · exact ⟨⟨"pattern".toList, rfl, forall_mem_of_all (by decide)⟩, forall_mem_of_all (by decide)⟩
  · exact ⟨⟨"seqovl_pattern".toList, rfl, forall_mem_of_all (by decide)⟩, forall_mem_of_all (by decide)⟩

theorem keyword_plain {keyword : String} (h : keyword ∈ blobKeywords) :
    '\\' ∉ keyword.toList ∧ '<' ∉ keyword.toList := by
  obtain rfl | rfl | rfl := keyword_cases h
  · decide
  · decide
  · decide

section reference

variable {cls : Char → Bool} {text value rest : List Char} {n : Nat} {v : String} {keyword : String}

/-- A whole value of the class, with what follows it. -/
structure Whole (cls : Char → Bool) (value rest : List Char) : Prop where
  ne_nil : value ≠ []
  chars : ∀ c ∈ value, cls c = true
  ends : rest.head?.any cls = false

theorem Whole.takeWhile (h : Whole cls value rest) : (value ++ rest).takeWhile cls = value := by
  rw [List.takeWhile_append_of_pos h.chars]
  cases rest with
  | nil => exact List.append_nil value
  | cons c rest =>
      have hc : cls c = false := h.ends
      rw [List.takeWhile_cons_of_neg (Bool.eq_false_iff.mp hc), List.append_nil]

theorem whole_takeWhile (h : text.takeWhile cls ≠ []) : Whole cls (text.takeWhile cls) (text.dropWhile cls) := by
  refine ⟨h, fun c hc => List.mem_takeWhile_imp hc, ?_⟩
  cases hdrop : text.dropWhile cls with
  | nil => rfl
  | cons c rest =>
      have hhead := List.head?_dropWhile_not cls text
      rw [hdrop] at hhead
      simpa using hhead

theorem assignment_whole (h : Whole cls value rest) : assignment keyword cls (keyword.toList ++ (value ++ rest)) =
    some (keyword.toList.length + value.length, String.ofList value) := by
  rw [assignment, startsWith, if_pos (List.isPrefixOf_iff_prefix.mpr (List.prefix_append _ _)), List.drop_left,
    h.takeWhile]
  dsimp only
  rw [if_neg (by rw [List.isEmpty_iff]; exact h.ne_nil)]

theorem assignment_some (h : assignment keyword cls text = some (n, v)) :
    ∃ rest, text = keyword.toList ++ (v.toList ++ rest) ∧ Whole cls v.toList rest ∧
      n = keyword.toList.length + v.toList.length := by
  rw [assignment] at h
  split at h
  next hprefix =>
    obtain ⟨tail, rfl⟩ := List.isPrefixOf_iff_prefix.mp hprefix
    rw [List.drop_left] at h
    dsimp only at h
    split at h
    next => exact nomatch h
    next hne =>
      rw [Option.some.injEq, Prod.mk.injEq] at h
      obtain ⟨rfl, rfl⟩ := h
      rw [List.isEmpty_iff] at hne
      refine ⟨tail.dropWhile cls, ?_, ?_, ?_⟩
      · rw [String.toList_ofList, List.takeWhile_append_dropWhile]
      · rw [String.toList_ofList]
        exact whole_takeWhile hne
      · rw [String.toList_ofList]
  next => exact nomatch h

theorem reference_whole (hkeyword : keyword ∈ blobKeywords) (h : Whole cls value rest) :
    reference cls (keyword.toList ++ (value ++ rest)) =
      some (keyword.toList.length + value.length, String.ofList value) := by
  have hself : assignment keyword cls (keyword.toList ++ (value ++ rest)) =
      some (keyword.toList.length + value.length, String.ofList value) := assignment_whole h
  rw [reference, blobKeywords]
  obtain rfl | rfl | rfl := keyword_cases hkeyword
  · rw [List.findSome?_cons_of_isSome (by rw [hself]; rfl), hself]
  · rw [List.findSome?_cons_of_isNone rfl, List.findSome?_cons_of_isSome (by rw [hself]; rfl), hself]
  · rw [List.findSome?_cons_of_isNone rfl, List.findSome?_cons_of_isNone rfl,
      List.findSome?_cons_of_isSome (by rw [hself]; rfl), hself]

theorem reference_some (h : reference cls text = some (n, v)) :
    ∃ keyword ∈ blobKeywords, ∃ rest, text = keyword.toList ++ (v.toList ++ rest) ∧ Whole cls v.toList rest ∧
      n = keyword.toList.length + v.toList.length := by
  obtain ⟨keyword, hkeyword, hsome⟩ := List.exists_of_findSome?_eq_some h
  exact ⟨keyword, hkeyword, assignment_some hsome⟩

theorem finditer_whole (hkeyword : keyword ∈ blobKeywords) (h : Whole cls value rest) :
    finditer (reference cls) (keyword.toList ++ (value ++ rest)) =
      String.ofList value :: finditer (reference cls) rest := by
  rw [← List.append_assoc]
  refine finditer_some ?_ ?_
  · exact List.append_ne_nil_of_right_ne_nil _ h.ne_nil
  · rw [List.append_assoc, reference_whole hkeyword h, List.length_append]

/-- Along the matches of a text, and the characters between them. -/
theorem scan_induction (cls : Char → Bool) {motive : List Char → Prop} (nil : motive [])
    (whole : ∀ keyword ∈ blobKeywords, ∀ value rest, Whole cls value rest → motive rest →
      motive (keyword.toList ++ (value ++ rest)))
    (other : ∀ c cs, reference cls (c :: cs) = none → motive cs → motive (c :: cs)) (text : List Char) :
    motive text := by
  induction hn : text.length using Nat.strong_induction_on generalizing text with
  | _ n ih =>
      cases text with
      | nil => exact nil
      | cons c cs =>
          cases hmatch : reference cls (c :: cs) with
          | none => exact other c cs hmatch (ih cs.length (by rw [← hn]; exact Nat.lt_succ_self _) cs rfl)
          | some p =>
              obtain ⟨keyword, hkeyword, rest, htext, hwhole, -⟩ := reference_some hmatch
              rw [htext]
              refine whole keyword hkeyword _ rest hwhole (ih rest.length ?_ rest rfl)
              have hpos := List.length_pos_iff.mpr hwhole.ne_nil
              rw [← hn, htext, List.length_append, List.length_append]
              omega

end reference

theorem isStop_of_not_value {c : Char} (h : isValueChar c = false) : isStop c = true := by
  rw [isStop, Bool.or_eq_true, beq_iff_eq]
  rw [isValueChar, Bool.and_eq_false_iff, Bool.not_eq_false', bne_eq_false_iff_eq] at h
  exact h.symm

theorem isWordChar_iff {c : Char} : isWordChar c = true ↔
    ((('A'.val ≤ c.val ∧ c.val ≤ 'Z'.val) ∨ ('a'.val ≤ c.val ∧ c.val ≤ 'z'.val)) ∨ c.isDigit = true) ∨ c = '_' := by
  change (((decide ('A'.val ≤ c.val ∧ c.val ≤ 'Z'.val) || (decide ('a'.val ≤ c.val) && decide (c.val ≤ 'z'.val))) ||
    c.isDigit) || c == '_') = true ↔ _
  simp only [Bool.or_eq_true, Bool.and_eq_true, decide_eq_true_eq, beq_iff_eq]

theorem word_range {c : Char} (h : isWordChar c = true) : 0x30 ≤ c.toNat ∧ c.toNat ≤ 0x7a := by
  rw [isWordChar_iff, Char.isDigit] at h
  simp only [Bool.and_eq_true, decide_eq_true_eq, ge_iff_le, UInt32.le_iff_toNat_le] at h
  rcases h with ((h | h) | h) | rfl
  · exact ⟨Nat.le_trans (by decide) h.1, Nat.le_trans h.2 (by decide)⟩
  · exact ⟨Nat.le_trans (by decide) h.1, Nat.le_trans h.2 (by decide)⟩
  · exact ⟨Nat.le_trans (by decide) h.1, Nat.le_trans h.2 (by decide)⟩
  · decide

theorem space_range {c : Char} (h : isSpace c = true) : c.toNat ≤ 0x20 ∨ 0x85 ≤ c.toNat := by
  rw [isSpace, Bool.or_eq_true, decide_eq_true_eq, decide_eq_true_eq] at h
  simp only [List.mem_cons, List.not_mem_nil, or_false] at h
  omega

theorem isValueChar_of_word {c : Char} (h : isWordChar c = true) : isValueChar c = true := by
  rw [isValueChar, Bool.and_eq_true, Bool.not_eq_true', bne_iff_ne]
  refine ⟨Bool.eq_false_iff.mpr (fun hspace => ?_), fun hcolon => ?_⟩
  · have hword := word_range h
    have hrange := space_range hspace
    omega
  · rw [hcolon] at h
    exact absurd h (by decide)

section names

variable {seg rest text : List Char}

/-- No name begins in the text. -/
def Quiet (seg : List Char) : Prop := ∀ a b, seg = a ++ '=' :: b → b.head?.any isWordChar = false

theorem quiet_of_not_mem (h : '=' ∉ seg) : Quiet seg := by
  intro a b hseg
  exact absurd (hseg ▸ List.mem_append_right a List.mem_cons_self) h

theorem quiet_equals {a b : List Char} (ha : '=' ∉ a) (hb : '=' ∉ b) (hhead : b.head?.any isWordChar = false) :
    Quiet (a ++ '=' :: b) := by
  intro before after h
  rw [List.append_eq_append_iff] at h
  rcases h with ⟨inside, hbefore, hafter⟩ | ⟨inside, hbefore, hafter⟩
  · cases inside with
    | nil =>
        rw [← (List.cons.inj hafter).2]
        exact hhead
    | cons x inside =>
        rw [(List.cons.inj hafter).2] at hb
        exact absurd (List.mem_append_right _ List.mem_cons_self) hb
  · cases inside with
    | nil =>
        rw [(List.cons.inj hafter).2]
        exact hhead
    | cons x inside =>
        rw [hbefore, ← (List.cons.inj hafter).1] at ha
        exact absurd (List.mem_append_right _ List.mem_cons_self) ha

theorem not_word_of_not_value (h : text.head?.any isValueChar = false) : text.head?.any isWordChar = false := by
  cases text with
  | nil => rfl
  | cons c text => exact Bool.eq_false_iff.mpr (fun hc => Bool.eq_false_iff.mp h (isValueChar_of_word hc))

theorem reference_quiet {c : Char} (hquiet : Quiet (c :: seg)) (hrest : rest.head?.any isValueChar = false) :
    reference isWordChar (c :: (seg ++ rest)) = none := by
  rw [Option.eq_none_iff_forall_not_mem]
  rintro ⟨n, v⟩ hmatch
  obtain ⟨keyword, hkeyword, tail, htext, hwhole, -⟩ := reference_some hmatch
  obtain ⟨⟨word, hword, -⟩, hstop⟩ := keyword_chars hkeyword
  obtain ⟨x, name, hname⟩ := List.exists_cons_of_ne_nil hwhole.ne_nil
  have hx : isWordChar x = true := hwhole.chars x (by rw [hname]; exact List.mem_cons_self)
  rw [hname, List.cons_append] at htext
  rw [← List.cons_append, List.append_eq_append_iff] at htext
  have hfirst : ∀ (tail : List Char), rest = x :: tail → False := by
    rintro tail rfl
    rw [List.head?_cons, Option.any_some, isValueChar_of_word hx] at hrest
    exact Bool.noConfusion hrest
  rcases htext with ⟨inside, hkw, hrest'⟩ | ⟨inside, hseg, hrest'⟩
  · cases inside with
    | nil => exact hfirst _ hrest'
    | cons a inside =>
        have ha := hstop a (by rw [hkw]; exact List.mem_append_right _ List.mem_cons_self)
        rw [hrest', List.cons_append, List.head?_cons, Option.any_some] at hrest
        rw [isStop_of_not_value hrest] at ha
        exact Bool.noConfusion ha
  · cases inside with
    | nil => exact hfirst _ hrest'.symm
    | cons b inside =>
        rw [hword, List.append_assoc, List.singleton_append] at hseg
        have hb : isWordChar b = false := hquiet word (b :: inside) hseg
        rw [(List.cons.inj hrest').1, hb] at hx
        exact Bool.noConfusion hx

theorem finditer_quiet (hquiet : Quiet seg) (hrest : rest.head?.any isValueChar = false) :
    finditer (reference isWordChar) (seg ++ rest) = finditer (reference isWordChar) rest := by
  induction seg with
  | nil => rfl
  | cons c seg ih =>
      rw [List.cons_append, finditer_none (reference_quiet hquiet hrest)]
      exact ih (fun a b hseg => hquiet (c :: a) b (congrArg (c :: ·) hseg))

theorem reference_none_of_value {c : Char} {cs : List Char} (h : reference isValueChar (c :: cs) = none) :
    reference isWordChar (c :: cs) = none := by
  rw [Option.eq_none_iff_forall_not_mem]
  rintro ⟨n, v⟩ hmatch
  obtain ⟨keyword, hkeyword, tail, htext, hwhole, -⟩ := reference_some hmatch
  obtain ⟨x, name, hname⟩ := List.exists_cons_of_ne_nil hwhole.ne_nil
  have hx : isValueChar x = true :=
    isValueChar_of_word (hwhole.chars x (by rw [hname]; exact List.mem_cons_self))
  rw [hname, List.cons_append] at htext
  have hvalue : Whole isValueChar ((x :: (name ++ tail)).takeWhile isValueChar)
      ((x :: (name ++ tail)).dropWhile isValueChar) := by
    refine whole_takeWhile ?_
    rw [List.takeWhile_cons_of_pos hx]
    exact List.cons_ne_nil _ _
  have hsome := reference_whole hkeyword hvalue
  rw [List.takeWhile_append_dropWhile, ← htext, h] at hsome
  exact nomatch hsome

/-- The word at the head of a value. -/
def headName (value : String) : String := String.ofList (value.toList.takeWhile isWordChar)

theorem headName_eq_empty_iff (value : List Char) :
    headName (String.ofList value) = "" ↔ value.takeWhile isWordChar = [] := by
  rw [headName, String.toList_ofList, String.ofList_eq_empty_iff]

/-- Where no value has an equals sign in it, the names are the heads of the values. -/
theorem names_eq (hvalues : ∀ v ∈ finditer (reference isValueChar) text, '=' ∉ v.toList) :
    finditer (reference isWordChar) text =
      ((finditer (reference isValueChar) text).map headName).filter (fun name => name ≠ "") := by
  induction text using scan_induction isValueChar with
  | nil => rfl
  | whole keyword hkeyword value rest hwhole ih =>
      rw [finditer_whole hkeyword hwhole, List.forall_mem_cons, String.toList_ofList] at hvalues
      rw [finditer_whole hkeyword hwhole, List.map_cons, List.filter_cons, ← ih hvalues.2]
      obtain ⟨⟨word, hword, hchars⟩, -⟩ := keyword_chars hkeyword
      by_cases hnone : value.takeWhile isWordChar = []
      · have hquiet : Quiet (keyword.toList ++ value) := by
          rw [hword, List.append_assoc, List.singleton_append]
          refine quiet_equals (fun h => absurd (hchars _ h) (by decide)) hvalues.1 ?_
          cases value with
          | nil => rfl
          | cons c value =>
              by_contra hc
              have hword' : isWordChar c = true := Bool.of_not_eq_false hc
              rw [List.takeWhile_cons_of_pos hword'] at hnone
              exact List.cons_ne_nil _ _ hnone
        rw [if_neg (by simpa [headName_eq_empty_iff] using hnone), ← List.append_assoc,
          finditer_quiet hquiet hwhole.ends]
      · have hhead := whole_takeWhile hnone
        have hsplit : value ++ rest = value.takeWhile isWordChar ++ (value.dropWhile isWordChar ++ rest) := by
          rw [← List.append_assoc, List.takeWhile_append_dropWhile]
        have hends : (value.dropWhile isWordChar ++ rest).head?.any isWordChar = false := by
          cases hdrop : value.dropWhile isWordChar with
          | nil => exact not_word_of_not_value hwhole.ends
          | cons c tail =>
              rw [hdrop] at hhead
              exact hhead.ends
        have hdrop : '=' ∉ value.dropWhile isWordChar := fun h => hvalues.1 (List.dropWhile_subset _ h)
        rw [if_pos (by simpa [headName_eq_empty_iff] using hnone), headName, String.toList_ofList, hsplit,
          finditer_whole hkeyword ⟨hhead.ne_nil, hhead.chars, hends⟩,
          finditer_quiet (quiet_of_not_mem hdrop) hwhole.ends]
  | other c cs hnone ih =>
      rw [finditer_none hnone] at hvalues
      rw [finditer_none hnone, finditer_none (reference_none_of_value hnone)]
      exact ih hvalues

end names

section emitted

variable {cls : Char → Bool} {text rest : List Char} {c : Char}

theorem reference_stop (hc : isStop c = true) (text : List Char) : reference cls (c :: text) = none := by
  rw [Option.eq_none_iff_forall_not_mem]
  rintro ⟨n, v⟩ hmatch
  obtain ⟨keyword, hkeyword, tail, htext, -, -⟩ := reference_some hmatch
  obtain ⟨⟨word, hword, -⟩, hstop⟩ := keyword_chars hkeyword
  cases hkw : keyword.toList with
  | nil => exact List.append_ne_nil_of_right_ne_nil word (List.cons_ne_nil _ _) (hword ▸ hkw)
  | cons x keyword =>
      rw [hkw] at htext hstop
      have hx := hstop x List.mem_cons_self
      rw [← (List.cons.inj htext).1, hc] at hx
      exact Bool.noConfusion hx

theorem finditer_stops (h : ∀ c ∈ text, isStop c = true) (rest : List Char) :
    finditer (reference cls) (text ++ rest) = finditer (reference cls) rest := by
  induction text with
  | nil => rfl
  | cons c text ih =>
      rw [List.forall_mem_cons] at h
      rw [List.cons_append, finditer_none (reference_stop h.1 _), ih h.2]

theorem reference_none_stop (hcls : ∀ c, isStop c = true → cls c = false) {s : Char} (hs : isStop s = true)
    (h : reference cls text = none) (rest : List Char) : reference cls (text ++ s :: rest) = none := by
  rw [Option.eq_none_iff_forall_not_mem]
  rintro ⟨n, v⟩ hmatch
  obtain ⟨keyword, hkeyword, tail, htext, hwhole, -⟩ := reference_some hmatch
  have hplain : ∀ c ∈ keyword.toList ++ v.toList, isStop c = false := by
    rw [List.forall_mem_append]
    refine ⟨(keyword_chars hkeyword).2, fun c hc => Bool.eq_false_iff.mpr (fun hstop => ?_)⟩
    exact Bool.eq_false_iff.mp (hcls c hstop) (hwhole.chars c hc)
  have hno : ∀ inside : List Char, text = keyword.toList ++ (v.toList ++ inside) →
      inside.head?.any cls = false → False := by
    rintro inside rfl hends
    rw [reference_whole hkeyword ⟨hwhole.ne_nil, hwhole.chars, hends⟩] at h
    exact nomatch h
  rw [← List.append_assoc, List.append_eq_append_iff] at htext
  rcases htext with ⟨inside, hkw, hrest⟩ | ⟨inside, htext, hrest⟩
  · cases inside with
    | nil => exact hno [] (by rw [List.append_nil, ← List.append_nil text, ← hkw]) rfl
    | cons x inside =>
        have hx := hplain x (by rw [hkw]; exact List.mem_append_right _ List.mem_cons_self)
        rw [List.cons_append, List.cons.injEq] at hrest
        rw [← hrest.1, hs] at hx
        exact Bool.noConfusion hx
  · refine hno inside (by rw [htext, List.append_assoc]) ?_
    cases inside with
    | nil => rfl
    | cons x inside =>
        have hends := hwhole.ends
        rw [hrest] at hends
        exact hends

theorem finditer_stop (hcls : ∀ c, isStop c = true → cls c = false) {s : Char} (hs : isStop s = true)
    (text rest : List Char) : finditer (reference cls) (text ++ s :: rest) =
      finditer (reference cls) text ++ finditer (reference cls) rest := by
  induction text using scan_induction cls with
  | nil => rw [List.nil_append, finditer_none (reference_stop hs rest)]; rfl
  | whole keyword hkeyword value tail hwhole ih =>
      have hends : (tail ++ s :: rest).head?.any cls = false := by
        cases tail with
        | nil => exact hcls s hs
        | cons c tail => exact hwhole.ends
      rw [finditer_whole hkeyword hwhole, List.append_assoc, List.append_assoc,
        finditer_whole hkeyword ⟨hwhole.ne_nil, hwhole.chars, hends⟩, ih, List.cons_append]
  | other c cs hnone ih =>
      have hmore : reference cls (c :: (cs ++ s :: rest)) = none := reference_none_stop hcls hs hnone rest
      rw [List.cons_append, finditer_none hmore, finditer_none hnone, ih]

theorem valueChar_stop (c : Char) (h : isStop c = true) : isValueChar c = false := by
  rw [isStop, Bool.or_eq_true, beq_iff_eq] at h
  rw [isValueChar, Bool.and_eq_false_iff, Bool.not_eq_false', bne_eq_false_iff_eq]
  exact h.symm

theorem space_stop {c : Char} (h : isSpace c = true) : isStop c = true := by
  rw [isStop, h, Bool.or_true]

theorem finditer_append_stops (text : List Char) {stops : List Char} (h : ∀ c ∈ stops, isStop c = true) :
    finditer (reference isValueChar) (text ++ stops) = finditer (reference isValueChar) text := by
  cases stops with
  | nil => rw [List.append_nil]
  | cons s stops =>
      rw [List.forall_mem_cons] at h
      have hnone := @finditer_stops isValueChar stops h.2 []
      rw [List.append_nil] at hnone
      rw [finditer_stop valueChar_stop h.1, hnone]
      exact List.append_nil _

/-- Spaces around a text hold no reference. -/
theorem finditer_strip (text : List Char) :
    finditer (reference isValueChar) (strip text) = finditer (reference isValueChar) text := by
  have hfront : finditer (reference isValueChar) (text.dropWhile isSpace) =
      finditer (reference isValueChar) text := by
    rw [← finditer_stops (fun c hc => space_stop (List.mem_takeWhile_imp hc)) (text.dropWhile isSpace),
      List.takeWhile_append_dropWhile]
  have hback : text.dropWhile isSpace =
      strip text ++ ((text.dropWhile isSpace).reverse.takeWhile isSpace).reverse := by
    rw [strip, ← List.reverse_append, List.takeWhile_append_dropWhile, List.reverse_reverse]
  rw [← hfront, hback, finditer_append_stops]
  intro c hc
  exact space_stop (List.mem_takeWhile_imp (List.mem_reverse.mp hc))

theorem reference_none_escape {cs : List Char} (hc : c ≠ '<') (h : reference isValueChar (c :: cs) = none) :
    reference isValueChar (c :: escapeConfLt cs) = none := by
  have hescape : escapeConfLt (c :: cs) = c :: escapeConfLt cs := escape_cons hc cs
  rw [Option.eq_none_iff_forall_not_mem]
  rintro ⟨n, v⟩ hmatch
  obtain ⟨keyword, hkeyword, tail, htext, hwhole, -⟩ := reference_some hmatch
  have hprefix : keyword.toList.isPrefixOf (c :: cs) = true := by
    rw [← isPrefixOf_escape (keyword_plain hkeyword).1 (keyword_plain hkeyword).2, hescape, htext]
    exact List.isPrefixOf_iff_prefix.mpr (List.prefix_append _ _)
  obtain ⟨body, hbody⟩ := List.isPrefixOf_iff_prefix.mp hprefix
  have hrest : escapeConfLt body = v.toList ++ tail := by
    apply @List.append_cancel_left Char keyword.toList
    rw [← htext, ← hescape, ← hbody, escapeConfLt_eq, escapeConfLt_eq, escape_append,
      escape_eq_self (keyword_plain hkeyword).2]
  have hvalue : body.takeWhile isValueChar ≠ [] := by
    cases body with
    | nil => exact absurd (List.append_eq_nil_iff.mp hrest.symm).1 hwhole.ne_nil
    | cons b body =>
        have hb : isValueChar b = true := by
          by_cases hlt : b = '<'
          · rw [hlt]
            decide
          · obtain ⟨x, name, hname⟩ := List.exists_cons_of_ne_nil hwhole.ne_nil
            rw [escapeConfLt_eq, escape_cons hlt, hname, List.cons_append] at hrest
            rw [(List.cons.inj hrest).1]
            exact hwhole.chars x (by rw [hname]; exact List.mem_cons_self)
        rw [List.takeWhile_cons_of_pos hb]
        exact List.cons_ne_nil _ _
  have hsome := reference_whole hkeyword (whole_takeWhile hvalue)
  rw [List.takeWhile_append_dropWhile, hbody, h] at hsome
  exact nomatch hsome

theorem finditer_escape (text : List Char) : finditer (reference isValueChar) (escapeConfLt text) =
    (finditer (reference isValueChar) text).map (fun v => String.ofList (escapeConfLt v.toList)) := by
  induction text using scan_induction isValueChar with
  | nil => rfl
  | whole keyword hkeyword value rest hwhole ih =>
      rw [finditer_whole hkeyword hwhole, List.map_cons, ← ih, String.toList_ofList, escapeConfLt_eq, escape_append,
        escape_append, escape_eq_self (keyword_plain hkeyword).2]
      refine finditer_whole hkeyword ⟨?_, ?_, ?_⟩
      · cases value with
        | nil => exact absurd rfl hwhole.ne_nil
        | cons x value =>
            by_cases hx : x = '<'
            · rw [hx, escape_bad]
              exact List.cons_ne_nil _ _
            · rw [escape_cons hx]
              exact List.cons_ne_nil _ _
      · intro x hx
        obtain ⟨y, hy, hxy⟩ := List.mem_flatMap.mp hx
        split at hxy
        next => obtain rfl | rfl := List.mem_pair.mp hxy <;> decide
        next =>
          rw [List.mem_singleton.mp hxy]
          exact hwhole.chars y hy
      · cases rest with
        | nil => rfl
        | cons x rest =>
            have hx : x ≠ '<' := by
              rintro rfl
              have hends : isValueChar '<' = false := hwhole.ends
              exact absurd hends (by decide)
            rw [escape_cons hx]
            exact hwhole.ends
  | other c cs hnone ih =>
      rw [finditer_none hnone, ← ih]
      by_cases hc : c = '<'
      · rw [hc, escapeConfLt_eq, escape_bad, finditer_none rfl, finditer_none rfl, ← escapeConfLt_eq]
      · have hescape : escapeConfLt (c :: cs) = c :: escapeConfLt cs := escape_cons hc cs
        rw [hescape, finditer_none (reference_none_escape hc hnone)]

theorem not_mem_digits {c : Char} (h : c.isDigit = false) {n : Nat} : c ∉ Nat.toDigits 10 n := fun hc =>
  Bool.eq_false_iff.mp h (Nat.isDigit_of_mem_toDigits (by decide) (by decide) hc)

theorem finditer_no_equals (h : '=' ∉ text) : finditer (reference cls) text = [] := by
  induction text using scan_induction cls with
  | nil => rfl
  | whole keyword hkeyword value rest hwhole ih =>
      obtain ⟨⟨word, hword, -⟩, -⟩ := keyword_chars hkeyword
      rw [hword] at h
      exact absurd (List.mem_append_left _ (List.mem_append_right _ (List.mem_singleton_self _))) h
  | other c cs hnone ih =>
      rw [finditer_none hnone]
      exact ih (fun hcs => h (List.mem_cons_of_mem _ hcs))

theorem finditer_tag (n : Nat) : finditer (reference isValueChar) (tag n).tail = [] := by
  have htail : (tag n).tail = "strategy=".toList ++ Nat.toDigits 10 n := by
    rw [tag, String.toList_append, Nat.toString_eq_repr, Nat.toList_repr]
    rfl
  have hword : finditer (reference isValueChar) ("strategy=".toList ++ Nat.toDigits 10 n) =
      finditer (reference isValueChar) (Nat.toDigits 10 n) := by
    change finditer _ ('s' :: 't' :: 'r' :: 'a' :: 't' :: 'e' :: 'g' :: 'y' :: '=' :: Nat.toDigits 10 n) = _
    iterate 9 rw [finditer_none rfl]
  rw [htail, hword, finditer_no_equals (not_mem_digits rfl)]

/-- The number of a core is no reference. -/
theorem finditer_ensure (text : List Char) (n : Nat) :
    finditer (reference isValueChar) (ensureStrategyN text n) = finditer (reference isValueChar) text := by
  rw [ensureStrategyN]
  split
  · exact finditer_strip text
  · change finditer _ (strip text ++ tag n) = _
    have htag : tag n = ':' :: (tag n).tail := by
      rw [tag, String.toList_append]
      rfl
    rw [htag, finditer_stop valueChar_stop rfl, finditer_tag, List.append_nil, finditer_strip]

end emitted

section components

theorem mem_splitFrom {c : Char} {part rest : List Char} (h : c ∈ part ∨ c ∈ rest ∧ c ≠ '+') :
    ∃ piece ∈ splitFrom ['+'] 0 part rest, c ∈ piece := by
  induction rest generalizing part with
  | nil =>
      refine ⟨part.reverse, List.mem_singleton_self _, List.mem_reverse.mpr ?_⟩
      exact h.elim id (fun h => absurd h.1 List.not_mem_nil)
  | cons d rest ih =>
      rw [splitFrom]
      split
      next hsep =>
        have hd : d = '+' := by
          rw [List.isPrefixOf_cons_cons, Bool.and_eq_true, beq_iff_eq] at hsep
          exact hsep.1.symm
        rcases h with h | ⟨h, hne⟩
        · exact ⟨part.reverse, List.mem_cons_self, List.mem_reverse.mpr h⟩
        · obtain ⟨piece, hpiece, hc⟩ := @ih []
            (Or.inr ⟨(List.mem_cons.mp h).resolve_left (fun heq => hne (heq.trans hd)), hne⟩)
          exact ⟨piece, List.mem_cons_of_mem _ hpiece, hc⟩
      next =>
        refine ih ?_
        rcases h with h | ⟨h, hne⟩
        · exact Or.inl (List.mem_cons_of_mem _ h)
        · rcases List.mem_cons.mp h with rfl | h
          · exact Or.inl List.mem_cons_self
          · exact Or.inr ⟨h, hne⟩

theorem splitFrom_head (part rest : List Char) :
    ∃ pieces, splitFrom ['+'] 0 part rest = (part.reverse ++ rest.takeWhile (· ≠ '+')) :: pieces := by
  induction rest generalizing part with
  | nil => exact ⟨[], by rw [splitFrom, List.takeWhile_nil, List.append_nil]⟩
  | cons d rest ih =>
      rw [splitFrom]
      by_cases hd : d = '+'
      · have htake : (d :: rest).takeWhile (· ≠ '+') = [] := List.takeWhile_cons_of_neg (by simpa using hd)
        have hsep : ['+'].isPrefixOf (d :: rest) = true := by
          rw [hd]
          rfl
        rw [if_pos hsep, htake, List.append_nil]
        exact ⟨_, rfl⟩
      · have hsep : ¬ ['+'].isPrefixOf (d :: rest) = true := by
          rw [List.isPrefixOf_cons_cons, Bool.and_eq_true, beq_iff_eq]
          exact fun h => hd h.1.symm
        have htake : (d :: rest).takeWhile (· ≠ '+') = d :: rest.takeWhile (· ≠ '+') :=
          List.takeWhile_cons_of_pos (decide_eq_true hd)
        obtain ⟨pieces, hpieces⟩ := ih (d :: part)
        rw [if_neg hsep, hpieces, htake, List.reverse_cons, List.append_assoc]
        exact ⟨pieces, rfl⟩

theorem word_of_hexDigit {c : Char} (h : isHexDigit c = true) : isWordChar c = true := by
  rw [isHexDigit, Bool.or_eq_true, Bool.or_eq_true, decide_eq_true_eq, decide_eq_true_eq] at h
  rw [isWordChar_iff]
  rcases h with (h | h) | h
  · exact Or.inl (Or.inr h)
  · exact Or.inl (Or.inl (Or.inr ⟨h.1, Nat.le_trans h.2 (by decide : 'f'.toNat ≤ 'z'.toNat)⟩))
  · exact Or.inl (Or.inl (Or.inl ⟨h.1, Nat.le_trans h.2 (by decide : 'F'.toNat ≤ 'Z'.toNat)⟩))

/-- The characters that a component of a value can have. -/
theorem word_of_component {p : String} (h : (isIdentifier p || isHexBlob p) = true) :
    ∀ c ∈ p.toList, isWordChar c = true := by
  rw [Bool.or_eq_true] at h
  rcases h with h | h
  · rw [isIdentifier] at h
    split at h
    next => exact Bool.noConfusion h
    next c cs heq =>
      rw [Bool.and_eq_true, List.all_eq_true] at h
      rw [heq, List.forall_mem_cons, isWordChar, Char.isAlphanum]
      refine ⟨?_, h.2⟩
      rw [Bool.or_right_comm, h.1, Bool.true_or]
  · rw [isHexBlob, Bool.and_eq_true, Bool.and_eq_true, List.all_eq_true] at h
    obtain ⟨digits, hdigits⟩ := List.isPrefixOf_iff_prefix.mp h.1.1
    rw [← hdigits, List.forall_mem_append]
    refine ⟨forall_mem_of_all (by decide), fun c hc => word_of_hexDigit (h.2 c ?_)⟩
    rw [← hdigits]
    exact hc

variable {value : String}

theorem component_ok (hok : blobExportOk value = true) {p : String} (hp : p ∈ components value) :
    (isIdentifier p || isHexBlob p) = true := List.all_eq_true.mp hok p hp

/-- A value that is kept has the characters of its components and the plus between them. -/
theorem value_chars (hok : blobExportOk value = true) {c : Char} (hc : c ∈ value.toList) :
    c = '+' ∨ isWordChar c = true := by
  by_cases hplus : c = '+'
  · exact Or.inl hplus
  · obtain ⟨piece, hpiece, hmem⟩ := @mem_splitFrom c [] _ (Or.inr ⟨hc, hplus⟩)
    have hcomponent : String.ofList piece ∈ components value :=
      List.mem_map_of_mem (List.mem_filter.mpr ⟨hpiece, decide_eq_true (List.ne_nil_of_mem hmem)⟩)
    refine Or.inr (word_of_component (component_ok hok hcomponent) c ?_)
    rwa [String.toList_ofList]

theorem takeWhile_congr {p q : Char → Bool} {text : List Char} (h : ∀ c ∈ text, p c = q c) :
    text.takeWhile p = text.takeWhile q := by
  induction text with
  | nil => rfl
  | cons c text ih =>
      rw [List.forall_mem_cons] at h
      rw [List.takeWhile_cons, List.takeWhile_cons, h.1, ih h.2]

theorem headName_component (hok : blobExportOk value = true) (hhead : headName value ≠ "") :
    headName value ∈ components value := by
  obtain ⟨pieces, hpieces⟩ := splitFrom_head [] value.toList
  have hword : value.toList.takeWhile isWordChar = value.toList.takeWhile (· ≠ '+') := by
    refine takeWhile_congr (fun c hc => ?_)
    rcases value_chars hok hc with rfl | hword
    · decide
    · rw [hword, eq_comm, decide_eq_true_eq]
      rintro rfl
      exact absurd hword (by decide)
  have hmem : value.toList.takeWhile isWordChar ∈ split value.toList "+" := by
    change _ ∈ splitFrom ['+'] 0 [] value.toList
    rw [hpieces, hword]
    exact List.mem_cons_self
  refine List.mem_map_of_mem (List.mem_filter.mpr ⟨hmem, decide_eq_true (fun hnil => hhead ?_)⟩)
  rw [headName, hnil, String.ofList_nil]

end components

end Blockchecks.BlobScan
