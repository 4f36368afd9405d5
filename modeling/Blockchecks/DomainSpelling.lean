import Blockchecks.DomainDeny
import Blockchecks.HostsPins

namespace Blockchecks.DomainSpelling

open StrategyText LuaConf DomainLoader DomainDeny TextLines

def isTail (c : Char) : Bool := c == '.' || c == '/'

/-- A text without its trailing dots and slashes. -/
def cut (text : List Char) : List Char := (text.reverse.dropWhile isTail).reverse

def lowered (raw : String) : List Char := raw.toList.map lowerChar

/-- Nothing but letter case, trailing dots and trailing slashes tells the two apart. -/
def Similar (raw raw' : String) : Prop := cut (lowered raw) = cut (lowered raw')

/-- What stands in a line in front of its slashes and, before these, its dots. -/
def nameIn (text : List Char) : List Char := rstripChar '.' (rstripChar '/' (strip text))

/-- Without its trailing dots and slashes the line is a name, an IPv4 address with white
space behind it apart. -/
def Named (raw : String) : Prop :=
  isFqdn (nameIn (cut (lowered raw))) = true ∧
    (isLiteralIp (strip (cut (lowered raw))) = true → ∀ c ∈ (cut (lowered raw)).getLast?, isSpace c = false)

/-- An IPv4 address that has dots or slashes behind it. -/
def DressedIp (raw : String) : Prop :=
  isLiteralIp (nameIn (lowered raw)) = true ∧ isLiteralIp (strip (lowered raw)) = false

/-- The dots come before the slashes, and neither behind white space. -/
def Orderly (raw : String) : Prop :=
  ∃ dots slashes, lowered raw = cut (lowered raw) ++ (List.replicate dots '.' ++ List.replicate slashes '/') ∧
    ((∃ c ∈ (cut (lowered raw)).getLast?, isSpace c = true) → dots = 0 ∧ slashes = 0)

variable {text tail : List Char} {raw raw' : String} {c : Char}

section letters

theorem lowerChar_cases (c : Char) : lowerChar c = c ∨
    (97 ≤ (lowerChar c).toNat ∧ (lowerChar c).toNat ≤ 122) ∧ (65 ≤ c.toNat ∧ c.toNat ≤ 90 ∨ c = '\u212a') := by
  rw [lowerChar]
  split
  next h => exact Or.inr ⟨by decide, Or.inr h⟩
  next =>
    delta Char.toLower
    split
    next h =>
      have hlow := UInt32.le_iff_toNat_le.mp h.1
      have hhigh := UInt32.le_iff_toNat_le.mp h.2
      simp only [Char.toNat_val] at hlow hhigh
      refine Or.inr ⟨?_, Or.inl ⟨hlow, hhigh⟩⟩
      simp only [Char.toNat, UInt32.toNat_add]
      simp at *
      omega
    next => exact Or.inl rfl

theorem lowerChar_lowerChar (c : Char) : lowerChar (lowerChar c) = lowerChar c := by
  rcases lowerChar_cases (lowerChar c) with h | ⟨_, hupper⟩
  · exact h
  · rcases lowerChar_cases c with h | ⟨hletter, _⟩
    · rw [h]
      exact h
    · rcases hupper with hupper | hkelvin
      · omega
      · rw [hkelvin] at hletter
        exact absurd hletter (by decide)

/-- A property of characters that no letter has does not see the case. -/
theorem lowerChar_blind {p : Char → Bool} (hlower : ∀ d : Char, 97 ≤ d.toNat → d.toNat ≤ 122 → p d = false)
    (hupper : ∀ d : Char, 65 ≤ d.toNat → d.toNat ≤ 90 → p d = false) (hkelvin : p '\u212a' = false) (c : Char) :
    p (lowerChar c) = p c := by
  rcases lowerChar_cases c with h | ⟨⟨h, h'⟩, hc | rfl⟩
  · rw [h]
  · rw [hlower _ h h', hupper c hc.1 hc.2]
  · rw [hlower _ h h', hkelvin]

theorem unspaced_of_range (h : 48 ≤ c.toNat) (h' : c.toNat ≤ 122) : isSpace c = false := by
  simp only [isSpace, Bool.or_eq_false_iff, decide_eq_false_iff_not, List.mem_cons, List.not_mem_nil, or_false,
    not_or]
  omega

theorem isSpace_lowerChar (c : Char) : isSpace (lowerChar c) = isSpace c :=
  lowerChar_blind (fun _ h h' => unspaced_of_range (by omega) h') (fun _ h h' => unspaced_of_range (by omega) (by omega))
    (by decide) c

theorem beq_lowerChar {e : Char} (hlow : e.toNat < 65) (c : Char) : (lowerChar c == e) = (c == e) := by
  have hnot (d : Char) (h : 65 ≤ d.toNat) : (d == e) = false := by
    rw [beq_eq_false_iff_ne]
    rintro rfl
    omega
  refine lowerChar_blind (p := (· == e)) (fun d h _ => hnot d (by omega)) (fun d h _ => hnot d h) (hnot _ (by decide)) c

theorem dropWhile_lower {p : Char → Bool} (h : ∀ c, p (lowerChar c) = p c) (text : List Char) :
    (text.map lowerChar).dropWhile p = (text.dropWhile p).map lowerChar := by
  rw [List.dropWhile_map]
  have hcomp : p ∘ lowerChar = p := funext h
  rw [hcomp]

theorem strip_lower (text : List Char) : strip (text.map lowerChar) = (strip text).map lowerChar := by
  rw [strip, dropWhile_lower isSpace_lowerChar, ← List.map_reverse, dropWhile_lower isSpace_lowerChar,
    ← List.map_reverse, strip]

theorem rstripChar_lower {e : Char} (hlow : e.toNat < 65) (text : List Char) :
    rstripChar e (text.map lowerChar) = (rstripChar e text).map lowerChar := by
  rw [rstripChar, ← List.map_reverse, dropWhile_lower (beq_lowerChar hlow), ← List.map_reverse, rstripChar]

end letters

section names

theorem isFqdn_labels (h : isFqdn text = true) : ∀ label ∈ text.splitOn '.', isLabel label = true := by
  rw [isFqdn, Bool.and_eq_true, List.all_eq_true, split_char (c := '.') rfl] at h
  exact h.2

theorem isFqdn_chars (h : isFqdn text = true) (hc : c ∈ text) : isLabelChar c = true ∨ c = '-' ∨ c = '.' := by
  by_cases hdot : c = '.'
  · exact Or.inr (Or.inr hdot)
  · obtain ⟨label, hlabel, hin⟩ := mem_splitOnP (p := (· == '.')) (beq_eq_false_iff_ne.mpr hdot) hc
    have hchars := isFqdn_labels h label hlabel
    rw [isLabel, Bool.and_eq_true, List.all_eq_true] at hchars
    rcases Bool.or_eq_true_iff.mp (hchars.2 c hin) with h | h
    · exact Or.inl h
    · exact Or.inr (Or.inl (beq_iff_eq.mp h))

theorem isFqdn_last (h : isFqdn text = true) : ∃ front last, text = front ++ [last] ∧ isTail last = false := by
  obtain rfl | ⟨front, last, rfl⟩ := List.eq_nil_or_concat' text
  · exact absurd h (by decide)
  · refine ⟨front, last, rfl, ?_⟩
    have hin : last ∈ front ++ [last] := List.mem_append_right _ (List.mem_singleton_self last)
    have hdot : last ≠ '.' := by
      rintro rfl
      have hempty := isFqdn_labels h [] (by
        rw [List.splitOn_append_cons_self]
        exact List.mem_append_right _ List.mem_cons_self)
      exact absurd hempty (by decide)
    have hslash : last ≠ '/' := by
      rintro rfl
      exact isFqdn_no_slash h hin
    rw [isTail, beq_eq_false_iff_ne.mpr hdot, beq_eq_false_iff_ne.mpr hslash]
    rfl

/-- Octets are labels of one to three digits. -/
theorem isLabel_of_isOctet (h : isOctet text = true) : isLabel text = true := by
  simp only [isOctet, Bool.and_eq_true, List.all_eq_true, decide_eq_true_eq, Bool.not_eq_true',
    List.isEmpty_eq_false_iff] at h
  obtain ⟨⟨⟨⟨hne, hdigits⟩, hlen⟩, _⟩, _⟩ := h
  have hlabel : ∀ c ∈ text, isLabelChar c = true := fun c hc => by rw [isLabelChar, hdigits c hc, Bool.or_true]
  rw [isLabel, List.head?_eq_some_head hne, List.getLast?_eq_some_getLast hne, Option.any_some, Option.any_some,
    hlabel _ (List.head_mem hne), hlabel _ (List.getLast_mem hne), decide_eq_true (by omega : text.length ≤ 63),
    Bool.true_and, Bool.true_and, Bool.true_and, List.all_eq_true]
  exact fun c hc => by rw [hlabel c hc, Bool.true_or]

theorem isFqdn_of_isLiteralIp (h : isLiteralIp text = true) : isFqdn text = true := by
  simp only [isLiteralIp, Bool.and_eq_true, decide_eq_true_eq, List.all_eq_true] at h
  rw [isFqdn, Bool.and_eq_true, decide_eq_true_iff, List.all_eq_true]
  exact ⟨by omega, fun label hlabel => isLabel_of_isOctet (h.2 label hlabel)⟩

theorem isLiteralIp_chars (h : isLiteralIp text = true) (hc : c ∈ text) : c.isDigit = true ∨ c = '.' := by
  by_cases hdot : c = '.'
  · exact Or.inr hdot
  · rw [isLiteralIp, split_char (c := '.') rfl, Bool.and_eq_true, List.all_eq_true] at h
    obtain ⟨label, hlabel, hin⟩ := mem_splitOnP (p := (· == '.')) (beq_eq_false_iff_ne.mpr hdot) hc
    have hoctet := h.2 label hlabel
    simp only [isOctet, Bool.and_eq_true, List.all_eq_true] at hoctet
    exact Or.inl (hoctet.1.1.1.2 c hin)

theorem isDigit_toNat (h : c.isDigit = true) : 48 ≤ c.toNat ∧ c.toNat ≤ 57 := by
  simp only [Char.isDigit, Bool.and_eq_true, decide_eq_true_eq] at h
  exact ⟨UInt32.le_iff_toNat_le.mp h.1, UInt32.le_iff_toNat_le.mp h.2⟩

theorem unspaced_of_isLabelChar (h : isLabelChar c = true) : isSpace c = false := by
  rw [isLabelChar, Bool.or_eq_true, decide_eq_true_iff] at h
  rcases h with h | h
  · have hlow : 97 ≤ c.toNat := UInt32.le_iff_toNat_le.mp h.1
    have hhigh : c.toNat ≤ 122 := UInt32.le_iff_toNat_le.mp h.2
    exact unspaced_of_range (by omega) hhigh
  · have hdigit := isDigit_toNat h
    exact unspaced_of_range hdigit.1 (by omega)

/-- An address is spelled in one way. -/
theorem isLiteralIp_lower (text : List Char) : isLiteralIp (text.map lowerChar) = isLiteralIp text := by
  have hself (h : ∀ c ∈ text, (lowerChar c).toNat < 65) : text.map lowerChar = text := by
    refine (List.map_congr_left fun c hc => ?_).trans (List.map_id text)
    rcases lowerChar_cases c with hsame | ⟨⟨hletter, _⟩, _⟩
    · exact hsame
    · exact absurd (h c hc) (by omega)
  have hsmall {c : Char} (h : c.isDigit = true ∨ c = '.') : c.toNat < 65 := by
    rcases h with h | rfl
    · exact Nat.lt_of_le_of_lt (isDigit_toNat h).2 (by decide)
    · decide
  rw [Bool.eq_iff_iff]
  constructor
  · intro h
    rwa [hself fun c hc => hsmall (isLiteralIp_chars h (List.mem_map_of_mem hc))] at h
  · intro h
    have hkeep : ∀ c ∈ text, (lowerChar c).toNat < 65 := by
      intro c hc
      have hc := hsmall (isLiteralIp_chars h hc)
      rcases lowerChar_cases c with hsame | ⟨_, hupper | rfl⟩
      · rwa [hsame]
      · omega
      · exact absurd hc (by decide)
    rwa [hself hkeep]

end names

section accepting

/-- What canonicalize_probe_domain takes, in lower case. -/
def accepted (text : List Char) : Bool := isFqdn (nameIn text) && !isLiteralIp (strip text)

theorem rstripChar_slash (text : List Char) :
    (if text.getLast? = some '/' then rstripChar '/' text else text) = rstripChar '/' text := by
  split
  next => rfl
  next hlast => exact (rstripChar_eq_self hlast).symm

/-- A text is its name, dots and slashes, in some case. -/
theorem nameIn_append (text : List Char) : ∃ dots slashes,
    strip text = nameIn text ++ (List.replicate dots '.' ++ List.replicate slashes '/') := by
  refine ⟨((rstripChar '/' (strip text)).reverse.takeWhile (· == '.')).length,
    ((strip text).reverse.takeWhile (· == '/')).length, ?_⟩
  rw [nameIn, ← List.append_assoc, rstripChar_append, rstripChar_append]

theorem nameIn_lowered (raw : String) :
    nameIn (lowered raw) = rstripChar '.' ((rstripChar '/' (strip raw.toList)).map lowerChar) := by
  rw [nameIn, lowered, strip_lower, rstripChar_lower (by decide)]

/-- The other tests of canonicalize_probe_domain refuse nothing more. -/
theorem plain_of_isFqdn (h : isFqdn (nameIn (lowered raw)) = true) :
    ∀ c ∈ strip raw.toList, c ≠ ':' ∧ c ≠ '*' ∧ isSpace c = false := by
  intro c hc
  obtain ⟨dots, slashes, htext⟩ := nameIn_append (lowered raw)
  have hin : lowerChar c ∈ strip (lowered raw) := by
    rw [lowered, strip_lower]
    exact List.mem_map_of_mem hc
  have hallowed : isLabelChar (lowerChar c) = true ∨ lowerChar c = '-' ∨ lowerChar c = '.' ∨ lowerChar c = '/' := by
    rw [htext, List.mem_append, List.mem_append] at hin
    rcases hin with hin | hin | hin
    · rcases isFqdn_chars h hin with h | h | h
      · exact Or.inl h
      · exact Or.inr (Or.inl h)
      · exact Or.inr (Or.inr (Or.inl h))
    · exact Or.inr (Or.inr (Or.inl (List.eq_of_mem_replicate hin)))
    · exact Or.inr (Or.inr (Or.inr (List.eq_of_mem_replicate hin)))
  have hspace : isSpace (lowerChar c) = false := by
    rcases hallowed with h | h | h | h
    · exact unspaced_of_isLabelChar h
    · rw [h]; decide
    · rw [h]; decide
    · rw [h]; decide
  refine ⟨?_, ?_, isSpace_lowerChar c ▸ hspace⟩
  · rintro rfl
    exact absurd hallowed (by decide)
  · rintro rfl
    exact absurd hallowed (by decide)

theorem accepted_iff : accepted text = true ↔ isFqdn (nameIn text) = true ∧ isLiteralIp (strip text) = false := by
  rw [accepted, Bool.and_eq_true, Bool.not_eq_true']

theorem canonicalize_eq (raw : String) : canonicalizeProbeDomain raw =
    if accepted (lowered raw) then some (String.ofList (nameIn (lowered raw))) else none := by
  have hip : isLiteralIp (strip (lowered raw)) = isLiteralIp (strip raw.toList) := by
    rw [lowered, strip_lower, isLiteralIp_lower]
  rw [canonicalizeProbeDomain]
  simp only [rstripChar_slash, ← nameIn_lowered, accepted, hip]
  cases hname : isFqdn (nameIn (lowered raw)) with
  | false => simp
  | true =>
      have hplain := plain_of_isFqdn hname
      have hempty : strip raw.toList ≠ [] := by
        intro hnil
        have hlow : strip (lowered raw) = [] := by rw [lowered, strip_lower, hnil]; rfl
        rw [nameIn, hlow] at hname
        exact absurd hname (by decide)
      have hscheme : contains (strip raw.toList) "://" = false := by
        refine Bool.eq_false_iff.mpr fun h => ?_
        rw [contains, hasInfix_iff] at h
        exact (hplain ':' (h.subset (by decide))).1 rfl
      have hstar : (strip raw.toList).contains '*' = false :=
        Bool.eq_false_iff.mpr fun h => (hplain '*' (List.contains_iff_mem.mp h)).2.1 rfl
      have hspace : (strip raw.toList).any isSpace = false :=
        List.any_eq_false.mpr fun c hc => Bool.eq_false_iff.mp (hplain c hc).2.2
      rw [if_neg hempty, hscheme, hstar, hspace]
      cases isLiteralIp (strip raw.toList) <;> rfl

theorem canonicalize_isSome : (canonicalizeProbeDomain raw).isSome = accepted (lowered raw) := by
  rw [canonicalize_eq]
  cases accepted (lowered raw) <;> rfl

end accepting

section tails

theorem cut_of_tail (htail : ∀ c ∈ tail, isTail c = true) (hlast : ∀ c ∈ text.getLast?, isTail c = false) :
    cut (text ++ tail) = text := by
  have hfront : text.reverse.dropWhile isTail = text.reverse := by
    cases hrev : text.reverse with
    | nil => rfl
    | cons c rest =>
        refine List.dropWhile_cons_of_neg (Bool.eq_false_iff.mp (hlast c ?_))
        rw [← List.head?_reverse, hrev]
        rfl
  rw [cut, List.reverse_append, List.dropWhile_append_of_pos fun c hc => htail c (List.mem_reverse.mp hc), hfront,
    List.reverse_reverse]

theorem cut_spec (text : List Char) : (∀ c ∈ (cut text).getLast?, isTail c = false) ∧
    ∃ tail, (∀ c ∈ tail, isTail c = true) ∧ text = cut text ++ tail := by
  constructor
  · intro c hc
    rw [cut, List.getLast?_reverse] at hc
    have hnot := List.head?_dropWhile_not isTail text.reverse
    rw [hc] at hnot
    exact hnot
  · refine ⟨(text.reverse.takeWhile isTail).reverse, ?_, ?_⟩
    · exact fun c hc => List.mem_takeWhile_imp (List.mem_reverse.mp hc)
    · rw [cut, ← List.reverse_append, List.takeWhile_append_dropWhile, List.reverse_reverse]

theorem cut_cut_append (htail : ∀ c ∈ tail, isTail c = true) (text : List Char) : cut (cut text ++ tail) = cut text :=
  cut_of_tail htail (cut_spec text).1

theorem unspaced_of_isTail (h : isTail c = true) : isSpace c = false := by
  rcases Bool.or_eq_true_iff.mp h with h | h
  · rw [beq_iff_eq.mp h]; decide
  · rw [beq_iff_eq.mp h]; decide

theorem strip_of_last (h : ∀ c ∈ text.getLast?, isSpace c = false) : strip text = text.dropWhile isSpace := by
  have hback : (text.dropWhile isSpace).reverse.dropWhile isSpace = (text.dropWhile isSpace).reverse := by
    cases hrev : (text.dropWhile isSpace).reverse with
    | nil => rfl
    | cons c rest =>
        refine List.dropWhile_cons_of_neg (Bool.eq_false_iff.mp (h c ?_))
        obtain ⟨front, hfront⟩ := List.dropWhile_suffix isSpace (l := text)
        have hlast : (text.dropWhile isSpace).getLast? = some c := by
          rw [← List.head?_reverse, hrev]
          rfl
        rw [← hfront, List.getLast?_append, hlast]
        rfl
  rw [strip, hback, List.reverse_reverse]

theorem getLast?_strip (h : ∀ c ∈ text.getLast?, isSpace c = false) : ∀ c ∈ (strip text).getLast?, c ∈ text.getLast? := by
  intro c hc
  rw [strip_of_last h] at hc
  obtain ⟨front, hfront⟩ := List.dropWhile_suffix isSpace (l := text)
  rw [← hfront, List.getLast?_append, hc]
  rfl

theorem getLast?_tail (htail : ∀ c ∈ tail, isTail c = true) (h : ∀ c ∈ text.getLast?, isSpace c = false) :
    ∀ c ∈ (text ++ tail).getLast?, isSpace c = false := by
  intro c hc
  rw [List.getLast?_append, Option.mem_def, Option.or_eq_some_iff] at hc
  rcases hc with hc | ⟨_, hc⟩
  · exact unspaced_of_isTail (htail c (List.mem_of_getLast? hc))
  · exact h c hc

theorem strip_tail (htail : ∀ c ∈ tail, isTail c = true) (h : ∀ c ∈ text.getLast?, isSpace c = false) :
    strip (text ++ tail) = strip text ++ tail := by
  rw [strip_of_last (getLast?_tail htail h), strip_of_last h, List.dropWhile_append]
  split
  next hempty =>
    rw [List.isEmpty_iff.mp hempty, List.nil_append]
    cases tail with
    | nil => rfl
    | cons c tail =>
        exact List.dropWhile_cons_of_neg (Bool.eq_false_iff.mp (unspaced_of_isTail (htail c List.mem_cons_self)))
  next => rfl

theorem rstripChar_concat (c : Char) (text : List Char) : rstripChar c (text ++ [c]) = rstripChar c text := by
  rw [rstripChar, List.reverse_append, List.reverse_singleton, List.singleton_append,
    List.dropWhile_cons_of_pos (p := (· == c)) (beq_self_eq_true c), rstripChar]

theorem rstripChar_replicate (c : Char) (text : List Char) (n : Nat) :
    rstripChar c (text ++ List.replicate n c) = rstripChar c text := by
  induction n with
  | zero => rw [List.replicate_zero, List.append_nil]
  | succ n ih => rw [List.replicate_succ', ← List.append_assoc, rstripChar_concat, ih]

theorem isTail_orderly {dots slashes : Nat} :
    ∀ c ∈ List.replicate dots '.' ++ List.replicate slashes '/', isTail c = true := by
  intro c hc
  rcases List.mem_append.mp hc with hc | hc
  · rw [List.eq_of_mem_replicate hc]; rfl
  · rw [List.eq_of_mem_replicate hc]; rfl

/-- Dots in front of slashes are taken off. -/
theorem nameIn_orderly (dots slashes : Nat) (hspace : ∀ c ∈ text.getLast?, isSpace c = false)
    (hlast : ∀ c ∈ text.getLast?, isTail c = false) :
    nameIn (text ++ (List.replicate dots '.' ++ List.replicate slashes '/')) = strip text := by
  have hend {c : Char} (hc : isTail c = true) : (strip text).getLast? ≠ some c := by
    intro h
    rw [hlast c (getLast?_strip hspace c h)] at hc
    cases hc
  have hslash : (strip text ++ List.replicate dots '.').getLast? ≠ some '/' := by
    rw [List.getLast?_append]
    cases dots with
    | zero => exact hend rfl
    | succ n => rw [List.replicate_succ', List.getLast?_concat, Option.some_or]; decide
  rw [nameIn, strip_tail isTail_orderly hspace, ← List.append_assoc, rstripChar_replicate,
    rstripChar_eq_self hslash, rstripChar_replicate, rstripChar_eq_self (hend rfl)]

theorem nameIn_eq_cut (h : isFqdn (nameIn text) = true) : nameIn text = cut (strip text) := by
  obtain ⟨dots, slashes, htext⟩ := nameIn_append text
  obtain ⟨front, last, hname, hlast⟩ := isFqdn_last h
  rw [htext, cut_of_tail isTail_orderly]
  rw [hname, List.getLast?_concat]
  rintro c hc
  rwa [← Option.some.inj hc]

theorem isLiteralIp_tail (hne : tail ≠ []) (htail : ∀ c ∈ tail, isTail c = true) : isLiteralIp (text ++ tail) = false := by
  refine Bool.eq_false_iff.mpr fun h => ?_
  obtain ⟨front, last, hsplit, hlast⟩ := isFqdn_last (isFqdn_of_isLiteralIp h)
  have hin : (text ++ tail).getLast? = some last := by rw [hsplit, List.getLast?_concat]
  rw [List.getLast?_append, List.getLast?_eq_some_getLast hne, Option.some_or, Option.some.injEq] at hin
  rw [← hin, htail _ (List.getLast_mem hne)] at hlast
  cases hlast

end tails

section spellings

/-- What an accepted text is without its trailing dots and slashes. -/
theorem named_of_accepted (h : accepted text = true) : isFqdn (nameIn (cut text)) = true ∧
    (isLiteralIp (strip (cut text)) = true → ∀ c ∈ (cut text).getLast?, isSpace c = false) := by
  obtain ⟨hname, hip⟩ := accepted_iff.mp h
  obtain ⟨hlast, tail, htail, hsplit⟩ := cut_spec text
  by_cases hspace : ∀ c ∈ (cut text).getLast?, isSpace c = false
  · refine ⟨?_, fun _ => hspace⟩
    have hstrip : cut (strip text) = strip (cut text) := by
      conv_lhs => rw [hsplit]
      rw [strip_tail htail hspace, cut_of_tail htail]
      exact fun c hc => hlast c (getLast?_strip hspace c hc)
    have hself := nameIn_orderly 0 0 hspace hlast
    simp only [List.replicate_zero, List.append_nil] at hself
    rw [hself, ← hstrip, ← nameIn_eq_cut hname]
    exact hname
  · simp only [not_forall, Bool.not_eq_false] at hspace
    obtain ⟨c, hc, hcspace⟩ := hspace
    cases tail with
    | nil =>
        rw [List.append_nil] at hsplit
        rw [← hsplit]
        exact ⟨hname, fun hlit => absurd (hip.symm.trans hlit) Bool.false_ne_true⟩
    | cons d tail =>
        -- white space in front of the tail stays in what should be a name
        exfalso
        have hend : ∀ c ∈ text.getLast?, isSpace c = false := by
          intro e he
          rw [hsplit, List.getLast?_append, List.getLast?_eq_some_getLast (List.cons_ne_nil d tail), Option.some_or] at he
          rw [← Option.some.inj he]
          exact unspaced_of_isTail (htail _ (List.getLast_mem _))
        have hstrip : strip text = (cut text ++ d :: tail).dropWhile isSpace := by
          rw [← hsplit, strip_of_last hend]
        rw [nameIn_eq_cut hname, hstrip, List.dropWhile_append] at hname
        split at hname
        · have hnil : (d :: tail).dropWhile isSpace = [] ++ d :: tail :=
            List.dropWhile_cons_of_neg (Bool.eq_false_iff.mp (unspaced_of_isTail (htail d List.mem_cons_self)))
          rw [hnil, cut_of_tail htail (fun _ h => by cases h)] at hname
          exact absurd hname (by decide)
        next hne =>
          have hdrop : c ∈ ((cut text).dropWhile isSpace).getLast? := by
            obtain ⟨front, hfront⟩ := List.dropWhile_suffix isSpace (l := cut text)
            have hnil : (cut text).dropWhile isSpace ≠ [] := fun h => hne (List.isEmpty_iff.mpr h)
            have hlast' := congrArg List.getLast? hfront
            rw [List.getLast?_append, List.getLast?_eq_some_getLast hnil, Option.some_or] at hlast'
            rw [List.getLast?_eq_some_getLast hnil, hlast']
            exact hc
          have hcut : cut ((cut text).dropWhile isSpace ++ d :: tail) = (cut text).dropWhile isSpace := by
            apply cut_of_tail htail
            intro e he
            rw [← Option.some.inj (hdrop.symm.trans he)]
            exact hlast c hc
          rw [hcut] at hname
          rcases isFqdn_chars hname (List.mem_of_getLast? hdrop) with h | rfl | rfl
          · rw [unspaced_of_isLabelChar h] at hcspace
            cases hcspace
          · exact absurd hcspace (by decide)
          · exact absurd hcspace (by decide)

/-- A name is accepted as it stands, and an address with a dot behind it. -/
theorem accepted_of_named (h : isFqdn (nameIn (cut text)) = true ∧
    (isLiteralIp (strip (cut text)) = true → ∀ c ∈ (cut text).getLast?, isSpace c = false)) :
    accepted (cut text) = true ∨ accepted (cut text ++ ['.']) = true := by
  cases hip : isLiteralIp (strip (cut text)) with
  | false => exact Or.inl (accepted_iff.mpr ⟨h.1, hip⟩)
  | true =>
      right
      have hspace := h.2 hip
      have hdot := nameIn_orderly 1 0 hspace (cut_spec text).1
      have hbare := nameIn_orderly 0 0 hspace (cut_spec text).1
      simp only [List.replicate_zero, List.append_nil, List.replicate_one] at hdot hbare
      have htail : ∀ c ∈ ['.'], isTail c = true := fun c hc => by rw [List.mem_singleton.mp hc]; rfl
      refine accepted_iff.mpr ⟨?_, ?_⟩
      · rw [hdot, ← hbare]
        exact h.1
      · rw [strip_tail htail hspace]
        exact isLiteralIp_tail (List.cons_ne_nil _ _) htail

/-- A slash in front of a dot stays. -/
theorem not_accepted_slash_dot (text : List Char) : accepted (text ++ ['/', '.']) = false := by
  refine Bool.eq_false_iff.mpr fun h => ?_
  have hsplit : text ++ ['/', '.'] = (text ++ ['/']) ++ ['.'] := by simp
  have hend : ∀ c ∈ (text ++ ['/', '.']).getLast?, isSpace c = false := by
    intro c hc
    rw [hsplit, List.getLast?_concat] at hc
    rw [← Option.some.inj hc]
    decide
  obtain ⟨front, hfront⟩ : ∃ front, strip (text ++ ['/', '.']) = (front ++ ['/']) ++ ['.'] := by
    rw [strip_of_last hend, List.dropWhile_append]
    split
    · exact ⟨[], by decide⟩
    · exact ⟨text.dropWhile isSpace, by simp⟩
  have hname := (accepted_iff.mp h).1
  have hdot : (front ++ ['/'] ++ ['.']).getLast? ≠ some '/' := by rw [List.getLast?_concat]; decide
  have hslash : (front ++ ['/']).getLast? ≠ some '.' := by rw [List.getLast?_concat]; decide
  rw [nameIn, hfront, rstripChar_eq_self hdot, rstripChar_concat, rstripChar_eq_self hslash] at hname
  exact isFqdn_no_slash hname (List.mem_append_right _ (List.mem_singleton_self '/'))

end spellings

end Blockchecks.DomainSpelling
