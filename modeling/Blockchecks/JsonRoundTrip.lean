import Blockchecks.Json

namespace Blockchecks.Json

/-- What may follow a value in a text that dumps wrote. -/
def Ends (rest : List Char) : Prop := ∀ c ∈ rest.head?, c ∈ [',', '\n', ']', '}']

/-- How a value may begin. -/
def Starts (c : Char) : Prop := isWhitespace c = false ∧ c ≠ ']' ∧ c ≠ '}'

variable {rest : List Char}

theorem ends_nil : Ends [] := by
  intro c hc
  cases hc

theorem ends_cons {c : Char} (h : c ∈ [',', '\n', ']', '}']) : Ends (c :: rest) := by
  intro d hd
  obtain rfl := Option.some.inj hd
  exact h

section numbers

theorem digitChar_table : ∀ d < 10, isDigit (digitChar d) ∧ digitValue (digitChar d) = d ∧
    (digitChar d = '0' → d = 0) := by
  decide

theorem isDigit_digitChar {d : Nat} (h : d < 10) : isDigit (digitChar d) := (digitChar_table d h).1

theorem decimal_map {ds : List Nat} (h : ∀ d ∈ ds, d < 10) (n : Nat) :
    (ds.map digitChar).foldl (fun n c => 10 * n + digitValue c) n =
      ds.foldl (fun n d => 10 * n + d) n := by
  induction ds generalizing n with
  | nil => rfl
  | cons d ds ih =>
      rw [List.map_cons, List.foldl_cons, List.foldl_cons, (digitChar_table d (h d List.mem_cons_self)).2.1]
      exact ih (fun e he => h e (List.mem_cons_of_mem d he)) _

theorem digits_lt {n d : Nat} (h : d ∈ (Nat.digits 10 n).reverse) : d < 10 :=
  Nat.digits_lt_base (by decide) (List.mem_reverse.mp h)

theorem decimal_digits (n : Nat) :
    decimal (((Nat.digits 10 n).reverse).map digitChar) = n := by
  rw [decimal, decimal_map (fun d => digits_lt), List.foldl_reverse]
  have hfold : (Nat.digits 10 n).foldr (fun d m => 10 * m + d) 0 = Nat.ofDigits 10 (Nat.digits 10 n) := by
    rw [Nat.ofDigits_eq_foldr]
    congr 1
    funext d m
    exact Nat.add_comm ..
  rw [hfold, Nat.ofDigits_digits]

theorem natText_isDigit (n : Nat) : ∀ c ∈ natText n, isDigit c := by
  intro c hc
  rw [natText] at hc
  split at hc
  · obtain rfl := List.mem_singleton.mp hc
    rfl
  · obtain ⟨d, hd, rfl⟩ := List.mem_map.mp hc
    exact isDigit_digitChar (digits_lt hd)

theorem natText_cons (n : Nat) : ∃ c cs, natText n = c :: cs ∧ (c = '0' → n = 0 ∧ cs = []) := by
  rw [natText]
  split
  next h => exact ⟨'0', [], rfl, fun _ => ⟨h, rfl⟩⟩
  next h =>
    have hne : Nat.digits 10 n ≠ [] := Nat.digits_ne_nil_iff_ne_zero.mpr h
    have hlast := Nat.getLast_digit_ne_zero 10 h
    obtain ⟨ds, d, hd⟩ := List.eq_nil_or_concat (Nat.digits 10 n) |>.resolve_left hne
    refine ⟨digitChar d, (ds.reverse).map digitChar, by simp [hd], ?_⟩
    intro hzero
    have hmem : d ∈ (Nat.digits 10 n).reverse := by simp [hd]
    have hd0 : d = 0 := (digitChar_table d (digits_lt hmem)).2.2 hzero
    simp only [hd, List.concat_eq_append, List.getLast_append_singleton] at hlast
    exact absurd hd0 hlast

theorem takeWhile_digits {ds : List Char} (h : ∀ c ∈ ds, isDigit c)
    (hrest : rest.takeWhile isDigit = []) :
    (ds ++ rest).takeWhile isDigit = ds ∧ (ds ++ rest).dropWhile isDigit = rest := by
  have htake : (ds ++ rest).takeWhile isDigit = ds := by
    rw [List.takeWhile_append_of_pos h, hrest, List.append_nil]
  refine ⟨htake, ?_⟩
  have hsplit := List.takeWhile_append_dropWhile (p := isDigit) (l := ds ++ rest)
  rw [htake] at hsplit
  exact List.append_cancel_left hsplit

theorem scanNat_natText (n : Nat) (hrest : rest.takeWhile isDigit = []) :
    scanNat (natText n ++ rest) = some (n, rest) := by
  obtain ⟨c, cs, htext, hzero⟩ := natText_cons n
  obtain ⟨htake, hdrop⟩ := takeWhile_digits (natText_isDigit n) hrest
  by_cases hc : c = '0'
  · obtain ⟨rfl, rfl⟩ := hzero hc
    rw [htext, hc]
    rfl
  · have hdecimal : decimal (natText n) = n := by
      rw [natText]
      split
      next h => rw [h]; rfl
      next => exact decimal_digits n
    rw [scanNat.eq_def]
    split
    next heq =>
      rw [htext, List.cons_append] at heq
      exact absurd (List.cons.inj heq).1 hc
    next =>
      dsimp only
      rw [htake, hdrop, hdecimal, if_neg (by rw [htext]; exact List.cons_ne_nil c cs)]

theorem Ends.not_digit (h : Ends rest) : rest.takeWhile isDigit = [] := by
  cases rest with
  | nil => rfl
  | cons c cs =>
      have hc := h c rfl
      simp only [List.mem_cons, List.not_mem_nil, or_false] at hc
      rcases hc with rfl | rfl | rfl | rfl <;> rfl

theorem Ends.scanExponent (h : Ends rest) : scanExponent rest = ([], rest) := by
  cases rest with
  | nil => rfl
  | cons c cs =>
      have hc := h c rfl
      rw [Json.scanExponent, if_neg]
      rintro ⟨he, _⟩
      rcases he with rfl | rfl <;> simp at hc

theorem Ends.scanFraction (h : Ends rest) : scanFraction rest = ([], rest) := by
  rw [Json.scanFraction.eq_def]
  split
  next => simpa using h '.' rfl
  next => rfl

theorem scanExponent_append {exponent : List Char} (he : IsExponent exponent) (h : Ends rest) :
    scanExponent (exponent ++ rest) = (exponent, rest) := by
  rcases he with rfl | ⟨e, sgn, digits, rfl, he, hsign, hne, hdigits⟩
  · exact h.scanExponent
  · obtain ⟨htake, hdrop⟩ := takeWhile_digits hdigits h.not_digit
    have hsigned : scanExponentSign (sgn ++ digits ++ rest) = (sgn, digits ++ rest) := by
      rcases hsign with rfl | rfl | rfl
      · cases digits with
        | nil => exact absurd rfl hne
        | cons d ds =>
            have hd := hdigits d List.mem_cons_self
            rw [scanExponentSign.eq_def]
            split
            next heq => rw [(List.cons.inj heq).1] at hd; cases hd
            next heq => rw [(List.cons.inj heq).1] at hd; cases hd
            next => rfl
      · rfl
      · rfl
    rw [List.cons_append, Json.scanExponent, hsigned]
    dsimp only
    rw [htake, hdrop, if_pos ⟨he, hne⟩]

theorem exponent_tail {exponent : List Char} (he : IsExponent exponent) (h : Ends rest) :
    (exponent ++ rest).takeWhile isDigit = [] ∧ ∀ c ∈ (exponent ++ rest).head?, c ≠ '.' := by
  rcases he with rfl | ⟨e, sgn, digits, rfl, he, _⟩
  · refine ⟨h.not_digit, ?_⟩
    rintro c hc rfl
    simpa using h '.' hc
  · refine ⟨by rcases he with rfl | rfl <;> rfl, ?_⟩
    intro c hc
    obtain rfl := Option.some.inj hc
    rcases he with rfl | rfl <;> decide

theorem scanFraction_append {fraction tail : List Char} (hf : IsFraction fraction)
    (hdigit : tail.takeWhile isDigit = []) (hpoint : ∀ c ∈ tail.head?, c ≠ '.') :
    scanFraction (fraction ++ tail) = (fraction, tail) := by
  rcases hf with rfl | ⟨digits, rfl, hne, hdigits⟩
  · rw [List.nil_append, Json.scanFraction.eq_def]
    split
    next => exact absurd rfl (hpoint '.' rfl)
    next => rfl
  · obtain ⟨htake, hdrop⟩ := takeWhile_digits hdigits hdigit
    rw [List.cons_append, Json.scanFraction, htake, hdrop, if_neg hne]

theorem scanSign_append (negative : Bool) (n : Nat) :
    scanSign (sign negative ++ (natText n ++ rest)) = (negative, natText n ++ rest) := by
  cases negative with
  | true => rfl
  | false =>
      obtain ⟨c, cs, htext, _⟩ := natText_cons n
      have hc := natText_isDigit n c (by rw [htext]; exact List.mem_cons_self)
      rw [sign, if_neg (by decide), List.nil_append, scanSign.eq_def]
      split
      next heq =>
        rw [htext, List.cons_append] at heq
        rw [(List.cons.inj heq).1] at hc
        cases hc
      next => rfl

/-- Numbers that are written in digits. -/
inductive Number.InDigits : Number → Prop
  | int (n : Int) : Number.InDigits (.int n)
  | float (literal : FloatLiteral) : Number.InDigits (.float literal)

theorem scanDigits_text {n : Number} (hn : n.InDigits) (h : Ends rest) :
    scanDigits (n.text ++ rest) = some (n, rest) := by
  cases hn with
  | int n =>
      rw [Number.text, intText, List.append_assoc, scanDigits, scanSign_append]
      dsimp only
      rw [scanNat_natText _ h.not_digit, Option.map_some]
      simp only [h.scanFraction, h.scanExponent, List.append_nil, dif_pos]
      have habs : (if decide (n < 0) = true then -(n.natAbs : Int) else n.natAbs) = n := by
        split
        next hneg => have := of_decide_eq_true hneg; omega
        next hpos => have : ¬ n < 0 := fun hneg => hpos (decide_eq_true hneg); omega
      rw [habs]
  | float x =>
      obtain ⟨hdigit, hpoint⟩ := exponent_tail x.isExponent h
      have hfraction := scanFraction_append x.isFraction hdigit hpoint
      have htail : (x.fraction ++ (x.exponent ++ rest)).takeWhile isDigit = [] := by
        rcases x.isFraction with hf | ⟨digits, hf, _⟩
        · rw [hf]
          exact hdigit
        · rw [hf]
          rfl
      rw [Number.text, FloatLiteral.text, List.append_assoc, List.append_assoc, List.append_assoc,
        scanDigits, scanSign_append]
      dsimp only
      rw [scanNat_natText _ htail, Option.map_some]
      dsimp only
      simp only [hfraction, scanExponent_append x.isExponent h, dif_neg x.notInt]

end numbers

section strings

theorem hexChar_table : ∀ d < 16, hexValue (hexChar d) = some d := by decide

theorem hexValue_hexChar (n : Nat) : hexValue (hexChar (n % 16)) = some (n % 16) :=
  hexChar_table _ (Nat.mod_lt n (by decide))

theorem scanUnits_unicodeEscape {n : Nat} (hn : n < 0x10000) (text : List Char) :
    scanUnits (unicodeEscape n ++ text) = (scanUnits text).map (push n) := by
  have hsum : 4096 * (n / 4096 % 16) + 256 * (n / 256 % 16) + 16 * (n / 16 % 16) + n % 16 = n := by
    omega
  rw [unicodeEscape]
  simp only [List.cons_append, List.nil_append, scanUnits, hex4, hexValue_hexChar, hsum,
    Option.bind_some, bind, pure]

/-- The code units that stand for a character. -/
def unitsOf (c : Char) : List Nat :=
  if c.toNat < 0x10000 then [c.toNat]
  else [0xd800 + (c.toNat - 0x10000) / 0x400, 0xdc00 + (c.toNat - 0x10000) % 0x400]

theorem toNat_range (c : Char) : (c.toNat < 0xd800 ∨ 0xdfff < c.toNat) ∧ c.toNat < 0x110000 := by
  rcases c.valid with h | ⟨h, h'⟩
  · have : c.toNat < 0xd800 := h
    omega
  · have hlow : 0xdfff < c.toNat := h
    have hhigh : c.toNat < 0x110000 := h'
    omega

theorem unitsOf_small {c : Char} (h : c.toNat < 0x10000) : unitsOf c = [c.toNat] := if_pos h

theorem scanUnits_plain {c : Char} (h : ' ' ≤ c ∧ c ≤ '~') (hquote : c ≠ '"') (hslash : c ≠ '\\')
    (text : List Char) : scanUnits (c :: text) = (scanUnits text).map (push c.toNat) := by
  have hcontrol : ¬ (c = '\\' ∨ c.toNat < 0x20) := by
    rintro (hc | hc)
    · exact hslash hc
    · exact absurd hc (Nat.not_lt.mpr h.1)
  rw [scanUnits.eq_def]
  split
  next heq => cases heq
  next heq => exact absurd (List.cons.inj heq).1 hquote
  next heq => exact absurd (List.cons.inj heq).1 hslash
  next heq => exact absurd (List.cons.inj heq).1 hslash
  next heq =>
    obtain ⟨rfl, rfl⟩ := List.cons.inj heq
    exact if_neg hcontrol

theorem scanUnits_escapeChar (c : Char) (text : List Char) :
    scanUnits (escapeChar c ++ text) =
      (scanUnits text).map (fun p => (unitsOf c ++ p.1, p.2)) := by
  have short {e : Char} (hc : c.toNat < 0x10000) (hu : unescape e = some c) (hne : e ≠ 'u') :
      scanUnits (['\\', e] ++ text) = (scanUnits text).map (fun p => (unitsOf c ++ p.1, p.2)) := by
    rw [unitsOf_small hc, List.cons_append, List.cons_append, List.nil_append, scanUnits.eq_def]
    split
    next heq => cases heq
    next heq => exact absurd (List.cons.inj heq).1 (by decide)
    next heq => exact absurd (List.cons.inj (List.cons.inj heq).2).1 hne
    next heq =>
      obtain ⟨rfl, rfl⟩ := List.cons.inj (List.cons.inj heq).2
      rw [hu, Option.bind_some]
      rfl
    next hother heq =>
      obtain ⟨rfl, rfl⟩ := List.cons.inj heq
      exact absurd rfl (hother e text rfl)
  rw [escapeChar]
  split_ifs with hquote hslash hn hr ht hf hb hplain hsmall
  · exact short (by rw [hquote]; decide) (by rw [hquote]; rfl) (by decide)
  · exact short (by rw [hslash]; decide) (by rw [hslash]; rfl) (by decide)
  · exact short (by rw [hn]; decide) (by rw [hn]; rfl) (by decide)
  · exact short (by rw [hr]; decide) (by rw [hr]; rfl) (by decide)
  · exact short (by rw [ht]; decide) (by rw [ht]; rfl) (by decide)
  · exact short (by rw [hf]; decide) (by rw [hf]; rfl) (by decide)
  · exact short (by rw [hb]; decide) (by rw [hb]; rfl) (by decide)
  · have hc : c.toNat < 0x10000 := Nat.lt_of_le_of_lt hplain.2 (by decide)
    rw [unitsOf_small hc]
    exact scanUnits_plain hplain hquote hslash text
  · rw [unitsOf_small hsmall]
    exact scanUnits_unicodeEscape hsmall text
  · have hrange := (toNat_range c).2
    rw [List.append_assoc, scanUnits_unicodeEscape (by omega), scanUnits_unicodeEscape (by omega),
      unitsOf, if_neg hsmall, Option.map_map]
    rfl

theorem scanUnits_escaped (cs : List Char) :
    scanUnits (cs.flatMap escapeChar ++ '"' :: rest) = some (cs.flatMap unitsOf, rest) := by
  induction cs with
  | nil => rfl
  | cons c cs ih =>
      rw [List.flatMap_cons, List.append_assoc, scanUnits_escapeChar, ih, Option.map_some,
        List.flatMap_cons]

theorem joinSurrogates_small {n : Nat} (h : ¬ isHighSurrogate n) (units : List Nat) :
    joinSurrogates (n :: units) = charOf n :: joinSurrogates units := by
  cases units with
  | nil => rfl
  | cons m units => rw [joinSurrogates, if_neg (fun hs => h hs.1)]

theorem joinSurrogates_units (cs : List Char) : joinSurrogates (cs.flatMap unitsOf) = cs := by
  induction cs with
  | nil => rfl
  | cons c cs ih =>
      obtain ⟨hgap, htop⟩ := toNat_range c
      rw [List.flatMap_cons]
      by_cases hsmall : c.toNat < 0x10000
      · have hhigh : ¬ isHighSurrogate c.toNat := by rw [isHighSurrogate]; omega
        have hlow : ¬ isLowSurrogate c.toNat := by rw [isLowSurrogate]; omega
        rw [unitsOf_small hsmall, List.singleton_append, joinSurrogates_small hhigh, ih, charOf,
          if_neg (not_or.mpr ⟨hhigh, hlow⟩), Char.ofNat_toNat]
      · have hhigh : isHighSurrogate (0xd800 + (c.toNat - 0x10000) / 0x400) := by
          rw [isHighSurrogate]
          omega
        have hlow : isLowSurrogate (0xdc00 + (c.toNat - 0x10000) % 0x400) := by
          rw [isLowSurrogate]
          omega
        rw [unitsOf, if_neg hsmall, List.cons_append, List.cons_append, List.nil_append, joinSurrogates,
          if_pos ⟨hhigh, hlow⟩, ih]
        have hsum : 0x10000 + (0x400 * (0xd800 + (c.toNat - 0x10000) / 0x400 - 0xd800) +
            (0xdc00 + (c.toNat - 0x10000) % 0x400 - 0xdc00)) = c.toNat := by
          omega
        rw [hsum, Char.ofNat_toNat]

theorem scanString_escaped (s : String) :
    scanString (s.toList.flatMap escapeChar ++ '"' :: rest) = some (s, rest) := by
  rw [scanString, scanUnits_escaped, Option.map_some, joinSurrogates_units, String.ofList_toList]

end strings

section values

theorem skipWhitespace_cons {c : Char} {text : List Char} (h : isWhitespace c = false) :
    skipWhitespace (c :: text) = c :: text := by
  rw [skipWhitespace, List.dropWhile_cons, if_neg (by rw [h]; decide)]

theorem skipWhitespace_newline (indent : Option Nat) (level : Nat) {c : Char} {text : List Char}
    (h : isWhitespace c = false) :
    skipWhitespace (newline indent level ++ c :: text) = c :: text := by
  cases indent with
  | none => exact skipWhitespace_cons h
  | some width =>
      have hspaces : ∀ k : Nat, skipWhitespace (List.replicate k ' ' ++ c :: text) = c :: text := by
        intro k
        induction k with
        | zero => exact skipWhitespace_cons h
        | succ k ih => exact ih
      exact hspaces _

theorem scanWord_head {word : String} {w c : Char} {ws cs : List Char} (hword : word.toList = w :: ws)
    (hne : w ≠ c) : scanWord word (c :: cs) = none := by
  rw [scanWord, hword, if_neg]
  rw [List.isPrefixOf_cons_cons, beq_eq_false_iff_ne.mpr hne]
  exact Bool.false_ne_true

theorem scanConstant_none {words : List (String × Value)} {text : List Char}
    (h : ∀ w ∈ words, scanWord w.1 text = none) : scanConstant words text = none := by
  induction words with
  | nil => rfl
  | cons w words ih =>
      rw [scanConstant, h w List.mem_cons_self]
      exact ih (fun v hv => h v (List.mem_cons_of_mem w hv))

theorem scanConstant_digit {c : Char} (hc : isDigit c) (negative : Bool) (cs : List Char) :
    scanConstant constants (sign negative ++ c :: cs) = none := by
  have hne : 'n' ≠ c ∧ 't' ≠ c ∧ 'f' ≠ c ∧ 'N' ≠ c ∧ 'I' ≠ c ∧ '-' ≠ c := by
    refine ⟨?_, ?_, ?_, ?_, ?_, ?_⟩ <;> (rintro rfl; cases hc)
  apply scanConstant_none
  cases negative with
  | true =>
      simp only [constants, List.forall_mem_cons]
      refine ⟨scanWord_head rfl (by decide), scanWord_head rfl (by decide), scanWord_head rfl (by decide),
        scanWord_head rfl (by decide), scanWord_head rfl (by decide), ?_, by simp⟩
      change scanWord "-Infinity" ('-' :: c :: cs) = none
      rw [scanWord, if_neg]
      have hword : "-Infinity".toList = '-' :: 'I' :: "nfinity".toList := rfl
      rw [hword, List.isPrefixOf_cons_cons, List.isPrefixOf_cons_cons, beq_self_eq_true, Bool.true_and,
        beq_eq_false_iff_ne.mpr hne.2.2.2.2.1]
      exact Bool.false_ne_true
  | false =>
      simp only [constants, List.forall_mem_cons]
      exact ⟨scanWord_head rfl hne.1, scanWord_head rfl hne.2.1, scanWord_head rfl hne.2.2.1,
        scanWord_head rfl hne.2.2.2.1, scanWord_head rfl hne.2.2.2.2.1, scanWord_head rfl hne.2.2.2.2.2,
        by simp⟩

theorem scanConstant_digits {n : Number} (hn : n.InDigits) :
    scanConstant constants (n.text ++ rest) = none := by
  have hhead : ∃ negative whole tail, n.text ++ rest = sign negative ++ (natText whole ++ tail) := by
    cases hn with
    | int n => exact ⟨_, _, _, List.append_assoc ..⟩
    | float x => exact ⟨_, _, _, (List.append_assoc ..).trans (congrArg _ (List.append_assoc ..))⟩
  obtain ⟨negative, whole, tail, htext⟩ := hhead
  obtain ⟨c, cs, hwhole, _⟩ := natText_cons whole
  rw [htext, hwhole]
  exact scanConstant_digit (natText_isDigit whole c (by rw [hwhole]; exact List.mem_cons_self)) _ _

theorem scanAtom_number (n : Number) (h : Ends rest) :
    scanAtom (n.text ++ rest) = some (.number n, rest) := by
  have digits (hn : n.InDigits) : scanAtom (n.text ++ rest) = some (.number n, rest) := by
    rw [scanAtom, scanConstant_digits hn]
    dsimp only
    rw [scanDigits_text hn h, Option.map_some]
  cases n with
  | int n => exact digits (.int n)
  | float x => exact digits (.float x)
  | nan => rfl
  | infinity negative => cases negative <;> rfl

theorem numberText_start (n : Number) : ∃ c cs, n.text = c :: cs ∧ Starts c ∧
    c ≠ '"' ∧ c ≠ '{' ∧ c ≠ '[' := by
  have digits (hn : ∃ negative whole tail, n.text = sign negative ++ (natText whole ++ tail)) :
      ∃ c cs, n.text = c :: cs ∧ Starts c ∧ c ≠ '"' ∧ c ≠ '{' ∧ c ≠ '[' := by
    obtain ⟨negative, whole, tail, htext⟩ := hn
    cases negative with
    | true => exact ⟨'-', _, htext, ⟨rfl, by decide, by decide⟩, by decide, by decide, by decide⟩
    | false =>
        obtain ⟨c, cs, hwhole, _⟩ := natText_cons whole
        have hc : isDigit c := natText_isDigit whole c (by rw [hwhole]; exact List.mem_cons_self)
        rw [hwhole] at htext
        refine ⟨c, cs ++ tail, htext, ⟨?_, ?_, ?_⟩, ?_, ?_, ?_⟩
        · by_contra hspace
          simp only [Bool.not_eq_false, isWhitespace, Bool.or_eq_true, decide_eq_true_eq] at hspace
          rcases hspace with ((rfl | rfl) | rfl) | rfl <;> cases hc
        all_goals (rintro rfl; cases hc)
  cases n with
  | int n => exact digits ⟨_, _, [], by rw [List.append_nil]; rfl⟩
  | float x => exact digits ⟨_, _, _, rfl⟩
  | nan => exact ⟨'N', _, rfl, ⟨rfl, by decide, by decide⟩, by decide, by decide, by decide⟩
  | infinity negative =>
      cases negative with
      | true => exact ⟨'-', _, rfl, ⟨rfl, by decide, by decide⟩, by decide, by decide, by decide⟩
      | false => exact ⟨'I', _, rfl, ⟨rfl, by decide, by decide⟩, by decide, by decide, by decide⟩

variable {indent : Option Nat}

theorem dumpAt_start (level : Nat) (v : Value) : ∃ c cs, dumpAt indent level v = c :: cs ∧ Starts c := by
  have start {c : Char} {cs text : List Char} (h : text = c :: cs) (hs : Starts c) :
      ∃ c cs, text = c :: cs ∧ Starts c := ⟨c, cs, h, hs⟩
  have hquote : Starts '"' := ⟨rfl, by decide, by decide⟩
  have hbracket : Starts '[' := ⟨rfl, by decide, by decide⟩
  have hbrace : Starts '{' := ⟨rfl, by decide, by decide⟩
  cases v with
  | null => exact ⟨'n', _, by rw [dumpAt]; rfl, rfl, by decide, by decide⟩
  | bool b =>
      cases b with
      | true => exact ⟨'t', _, by rw [dumpAt]; rfl, rfl, by decide, by decide⟩
      | false => exact ⟨'f', _, by rw [dumpAt]; rfl, rfl, by decide, by decide⟩
  | number n =>
      obtain ⟨c, cs, htext, hc, _⟩ := numberText_start n
      exact ⟨c, cs, by rw [dumpAt]; exact htext, hc⟩
  | str s => exact start (by rw [dumpAt, stringText]) hquote
  | array items =>
      cases items with
      | nil => exact start (by rw [dumpAt]) hbracket
      | cons => exact start (by rw [dumpAt]) hbracket
  | object members =>
      cases members with
      | nil => exact start (by rw [dumpAt]) hbrace
      | cons m => exact start (by rw [dumpAt]) hbrace

theorem separator_length (level : Nat) : 0 < (separator indent level).length := by
  cases indent <;> exact Nat.succ_pos _

/-- A separator ends the value before it, and is read as a comma. -/
theorem separator_cons (level : Nat) {c : Char} (text : List Char) (h : isWhitespace c = false) :
    ∃ gap, separator indent level ++ c :: text = ',' :: gap ∧ skipWhitespace gap = c :: text := by
  cases indent with
  | none => exact ⟨_, rfl, skipWhitespace_cons h⟩
  | some width => exact ⟨_, rfl, skipWhitespace_newline (some width) level h⟩

theorem closing_ends (level : Nat) {c : Char} (h : c ∈ [',', '\n', ']', '}']) (text : List Char) :
    Ends (newline indent level ++ c :: text) := by
  cases indent with
  | none => exact ends_cons h
  | some width => exact ends_cons (by decide)

theorem scanOnce_atom {c : Char} {cs : List Char} {fuel : Nat} (hquote : c ≠ '"') (hbrace : c ≠ '{')
    (hbracket : c ≠ '[') : scanOnce (fuel + 1) (c :: cs) = scanAtom (c :: cs) := by
  rw [scanOnce]
  · exact fun _ heq => hquote (List.cons.inj heq).1
  · exact fun _ heq => hbrace (List.cons.inj heq).1
  · exact fun _ heq => hbracket (List.cons.inj heq).1

theorem scanOnce_array {fuel : Nat} {text body : List Char} {c : Char} (h : skipWhitespace text = c :: body)
    (hc : c ≠ ']') : scanOnce (fuel + 1) ('[' :: text) =
      (scanItems fuel (c :: body)).map (fun p => (.array p.1, p.2)) := by
  rw [scanOnce, h]
  split
  next heq => exact absurd (List.cons.inj heq).1 hc
  next => rfl

theorem scanOnce_object {fuel : Nat} {text body : List Char} {c : Char} (h : skipWhitespace text = c :: body)
    (hc : c ≠ '}') : scanOnce (fuel + 1) ('{' :: text) =
      (scanMembers fuel (c :: body)).map (fun p => (.object p.1, p.2)) := by
  rw [scanOnce, h]
  split
  next heq => exact absurd (List.cons.inj heq).1 hc
  next => rfl

theorem dumpItems_ends (level outer : Nat) (items : List Value) :
    Ends (dumpItems indent level items ++ (newline indent outer ++ ']' :: rest)) := by
  cases items with
  | nil => rw [dumpItems]; exact closing_ends outer (by decide) rest
  | cons item items =>
      rw [dumpItems]
      cases indent <;> exact ends_cons (by decide)

theorem dumpMembers_ends (level outer : Nat) (members : List (String × Value)) :
    Ends (dumpMembers indent level members ++ (newline indent outer ++ '}' :: rest)) := by
  cases members with
  | nil => rw [dumpMembers]; exact closing_ends outer (by decide) rest
  | cons m members =>
      rw [dumpMembers]
      cases indent <;> exact ends_cons (by decide)

/-- With this fuel the three scanners give back what was written. -/
structure ReadsBack (indent : Option Nat) (fuel : Nat) : Prop where
  value : ∀ (v : Value) (level : Nat) (rest : List Char), (dumpAt indent level v).length < fuel →
    Ends rest → scanOnce fuel (dumpAt indent level v ++ rest) = some (v, rest)
  items : ∀ (item : Value) (items : List Value) (level outer : Nat) (rest : List Char),
    (dumpAt indent level item).length + (dumpItems indent level items).length + 1 < fuel →
    scanItems fuel (dumpAt indent level item ++ (dumpItems indent level items ++
      (newline indent outer ++ ']' :: rest))) = some (item :: items, rest)
  members : ∀ (key : String) (value : Value) (members : List (String × Value)) (level outer : Nat)
    (rest : List Char), (stringText key).length + (dumpAt indent level value).length +
      (dumpMembers indent level members).length + 1 < fuel →
    scanMembers fuel (stringText key ++ (':' :: ' ' :: (dumpAt indent level value ++
      (dumpMembers indent level members ++ (newline indent outer ++ '}' :: rest))))) =
      some ((key, value) :: members, rest)

variable {fuel : Nat}

theorem scanOnce_dump (ih : ReadsBack indent fuel) (v : Value) (level : Nat) (rest : List Char)
    (hfuel : (dumpAt indent level v).length < fuel + 1) (h : Ends rest) :
    scanOnce (fuel + 1) (dumpAt indent level v ++ rest) = some (v, rest) := by
  cases v with
  | null => rw [dumpAt]; rfl
  | bool b => cases b <;> (rw [dumpAt]; rfl)
  | number n =>
      obtain ⟨c, cs, htext, _, hquote, hbrace, hbracket⟩ := numberText_start n
      have hatom := scanAtom_number n h
      rw [htext] at hatom
      rw [dumpAt, htext, List.cons_append, scanOnce_atom hquote hbrace hbracket]
      exact hatom
  | str s =>
      rw [dumpAt, stringText, List.cons_append, List.append_assoc, scanOnce, List.singleton_append,
        scanString_escaped, Option.map_some]
  | array items =>
      cases items with
      | nil => rw [dumpAt]; rfl
      | cons item items =>
          rw [dumpAt] at hfuel ⊢
          simp only [List.length_cons, List.length_append, List.length_nil] at hfuel
          have hitems := ih.items item items (level + 1) level rest (by omega)
          obtain ⟨c, cs, htext, hspace, hclose, _⟩ := @dumpAt_start indent (level + 1) item
          simp only [List.cons_append, List.append_assoc, List.nil_append]
          rw [htext, List.cons_append] at hitems ⊢
          rw [scanOnce_array (skipWhitespace_newline indent _ hspace) hclose, hitems, Option.map_some]
  | object members =>
      cases members with
      | nil => rw [dumpAt]; rfl
      | cons m members =>
          rw [dumpAt] at hfuel ⊢
          simp only [List.length_cons, List.length_append, List.length_nil] at hfuel
          have hmembers := ih.members m.1 m.2 members (level + 1) level rest (by omega)
          simp only [stringText, List.cons_append, List.append_assoc, List.nil_append] at hmembers ⊢
          rw [scanOnce_object (skipWhitespace_newline indent _ rfl) (by decide), hmembers,
            Option.map_some]

theorem scanItems_dump (ih : ReadsBack indent fuel) (item : Value) (items : List Value)
    (level outer : Nat) (rest : List Char)
    (hfuel : (dumpAt indent level item).length + (dumpItems indent level items).length + 1 < fuel + 1) :
    scanItems (fuel + 1) (dumpAt indent level item ++ (dumpItems indent level items ++
      (newline indent outer ++ ']' :: rest))) = some (item :: items, rest) := by
  have hitem := ih.value item level
    (dumpItems indent level items ++ (newline indent outer ++ ']' :: rest)) (by omega)
    (dumpItems_ends level outer items)
  rw [scanItems, hitem, Option.bind_some]
  dsimp only
  cases items with
  | nil =>
      rw [dumpItems, List.nil_append, skipWhitespace_newline indent outer rfl]
      rfl
  | cons next items =>
      have hsep := @separator_length indent level
      rw [dumpItems] at hfuel
      simp only [List.length_append] at hfuel
      have hrest := ih.items next items level outer rest (by omega)
      obtain ⟨c, cs, htext, hspace, _⟩ := @dumpAt_start indent level next
      obtain ⟨gap, hcomma, hgap⟩ := @separator_cons indent level _
        (cs ++ (dumpItems indent level items ++ (newline indent outer ++ ']' :: rest))) hspace
      rw [htext, List.cons_append] at hrest
      rw [dumpItems, List.append_assoc, List.append_assoc, htext, List.cons_append, hcomma,
        skipWhitespace_cons rfl]
      change Option.map _ (scanItems fuel (skipWhitespace gap)) = _
      rw [hgap, hrest, Option.map_some]

theorem scanMembers_dump (ih : ReadsBack indent fuel) (key : String) (value : Value)
    (members : List (String × Value)) (level outer : Nat) (rest : List Char)
    (hfuel : (stringText key).length + (dumpAt indent level value).length +
      (dumpMembers indent level members).length + 1 < fuel + 1) :
    scanMembers (fuel + 1) (stringText key ++ (':' :: ' ' :: (dumpAt indent level value ++
      (dumpMembers indent level members ++ (newline indent outer ++ '}' :: rest))))) =
      some ((key, value) :: members, rest) := by
  have hvalue := ih.value value level
    (dumpMembers indent level members ++ (newline indent outer ++ '}' :: rest)) (by omega)
    (dumpMembers_ends level outer members)
  obtain ⟨c, cs, htext, hspace, _⟩ := @dumpAt_start indent level value
  have hblank : ∀ text, skipWhitespace (' ' :: c :: text) = c :: text :=
    fun text => skipWhitespace_cons hspace
  rw [htext, List.cons_append] at hvalue
  rw [stringText, List.cons_append, List.append_assoc, List.singleton_append, scanMembers,
    scanString_escaped, Option.bind_some]
  dsimp only
  rw [skipWhitespace_cons rfl]
  change (scanOnce fuel (skipWhitespace (' ' :: (dumpAt indent level value ++ _)))).bind _ = _
  rw [htext, List.cons_append, hblank, hvalue, Option.bind_some]
  dsimp only
  cases members with
  | nil =>
      rw [dumpMembers, List.nil_append, skipWhitespace_newline indent outer rfl]
      rfl
  | cons m members =>
      have hsep := @separator_length indent level
      rw [dumpMembers] at hfuel
      simp only [List.length_append, List.length_cons] at hfuel
      have hrest := ih.members m.1 m.2 members level outer rest (by omega)
      obtain ⟨gap, hcomma, hgap⟩ := @separator_cons indent level _
        (m.1.toList.flatMap escapeChar ++ ('"' :: ':' :: ' ' :: (dumpAt indent level m.2 ++
          (dumpMembers indent level members ++ (newline indent outer ++ '}' :: rest)))))
        (rfl : isWhitespace '"' = false)
      simp only [stringText, List.cons_append, List.append_assoc, List.nil_append] at hrest
      rw [dumpMembers]
      simp only [stringText, List.cons_append, List.append_assoc, List.nil_append]
      rw [hcomma, skipWhitespace_cons rfl]
      change Option.map _ (scanMembers fuel (skipWhitespace gap)) = _
      rw [hgap, hrest, Option.map_some]

theorem readsBack (indent : Option Nat) (fuel : Nat) : ReadsBack indent fuel := by
  induction fuel with
  | zero =>
      exact ⟨fun _ _ _ h => absurd h (Nat.not_lt_zero _), fun _ _ _ _ _ h => absurd h (Nat.not_lt_zero _),
        fun _ _ _ _ _ _ h => absurd h (Nat.not_lt_zero _)⟩
  | succ fuel ih => exact ⟨scanOnce_dump ih, scanItems_dump ih, scanMembers_dump ih⟩

/-- Reading a written value gives it back, also with whitespace after it. -/
theorem loads_dumps_append (v : Value) {tail : List Char} (h : Ends tail)
    (hblank : skipWhitespace tail = []) : loads (dumps indent v ++ tail) = some v := by
  obtain ⟨c, cs, htext, hspace, _⟩ := @dumpAt_start indent 0 v
  have hscan := (readsBack indent ((dumps indent v ++ tail).length + 1)).value v 0 tail (by
    rw [List.length_append, dumps]
    omega) h
  have hskip : skipWhitespace (dumps indent v ++ tail) = dumps indent v ++ tail := by
    rw [dumps, htext]
    exact skipWhitespace_cons hspace
  rw [← dumps] at hscan
  rw [loads, hskip, hscan, Option.bind_some, if_pos hblank]

theorem loads_dumps (v : Value) : loads (dumps indent v) = some v := by
  have h := @loads_dumps_append indent v [] ends_nil rfl
  rwa [List.append_nil] at h

end values

section styles

/-- What the arguments of json.dumps choose in a text on one line: how a character
stands in a string, and what follows a comma and a colon. -/
structure Style where
  escape : Char → List Char
  gap : List Char

/-- With ensure_ascii off only quotes, backslashes and control characters are escaped. -/
def escapeControl (c : Char) : List Char :=
  if c = '"' ∨ c = '\\' ∨ c.toNat < 0x20 then escapeChar c else [c]

/-- The defaults. -/
def ascii : Style := ⟨escapeChar, [' ']⟩

/-- separators=(",", ":") -/
def compact : Style := ⟨escapeChar, []⟩

/-- ensure_ascii=False -/
def unicode : Style := ⟨escapeControl, [' ']⟩

namespace Style

variable (style : Style)

def string (s : String) : List Char := '"' :: (s.toList.flatMap style.escape ++ ['"'])

mutual

def dump : Value → List Char
  | .null => "null".toList
  | .bool b => if b then "true".toList else "false".toList
  | .number n => n.text
  | .str s => style.string s
  | .array [] => ['[', ']']
  | .array (item :: items) => '[' :: (dump item ++ (dumpItems items ++ [']']))
  | .object [] => ['{', '}']
  | .object ((key, value) :: members) =>
      '{' :: (style.string key ++ (':' :: (style.gap ++ (dump value ++ (dumpMembers members ++ ['}'])))))

def dumpItems : List Value → List Char
  | [] => []
  | item :: items => ',' :: (style.gap ++ (dump item ++ dumpItems items))

def dumpMembers : List (String × Value) → List Char
  | [] => []
  | (key, value) :: members =>
      ',' :: (style.gap ++ (style.string key ++ (':' :: (style.gap ++ (dump value ++ dumpMembers members)))))

end

/-- Each character of a string is read as itself, and the gap as nothing. -/
structure Sound : Prop where
  char : ∀ c, ∃ units, (∀ text, scanUnits (style.escape c ++ text) = (scanUnits text).map (fun p => (units ++ p.1, p.2))) ∧
    ∀ more, joinSurrogates (units ++ more) = c :: joinSurrogates more
  gap : ∀ c ∈ style.gap, isWhitespace c

end Style

theorem joinSurrogates_char (c : Char) (more : List Nat) :
    joinSurrogates (c.toNat :: more) = c :: joinSurrogates more := by
  have hgap := (toNat_range c).1
  have hhigh : ¬ isHighSurrogate c.toNat := by rw [isHighSurrogate]; omega
  have hlow : ¬ isLowSurrogate c.toNat := by rw [isLowSurrogate]; omega
  rw [joinSurrogates_small hhigh, charOf, if_neg (not_or.mpr ⟨hhigh, hlow⟩), Char.ofNat_toNat]

theorem joinSurrogates_unitsOf (c : Char) (more : List Nat) :
    joinSurrogates (unitsOf c ++ more) = c :: joinSurrogates more := by
  by_cases hsmall : c.toNat < 0x10000
  · rw [unitsOf_small hsmall, List.singleton_append, joinSurrogates_char]
  · have htop := (toNat_range c).2
    have hhigh : isHighSurrogate (0xd800 + (c.toNat - 0x10000) / 0x400) := by
      rw [isHighSurrogate]
      omega
    have hlow : isLowSurrogate (0xdc00 + (c.toNat - 0x10000) % 0x400) := by
      rw [isLowSurrogate]
      omega
    rw [unitsOf, if_neg hsmall, List.cons_append, List.cons_append, List.nil_append, joinSurrogates,
      if_pos ⟨hhigh, hlow⟩]
    have hsum : 0x10000 + (0x400 * (0xd800 + (c.toNat - 0x10000) / 0x400 - 0xd800) +
        (0xdc00 + (c.toNat - 0x10000) % 0x400 - 0xdc00)) = c.toNat := by
      omega
    rw [hsum, Char.ofNat_toNat]

theorem scanUnits_verbatim {c : Char} (h : ¬ (c = '"' ∨ c = '\\' ∨ c.toNat < 0x20)) (text : List Char) :
    scanUnits (c :: text) = (scanUnits text).map (push c.toNat) := by
  obtain ⟨hquote, hother⟩ := not_or.mp h
  rw [scanUnits.eq_def]
  split
  next heq => cases heq
  next heq => exact absurd (List.cons.inj heq).1 hquote
  next heq => exact absurd (.inl (List.cons.inj heq).1) hother
  next heq => exact absurd (.inl (List.cons.inj heq).1) hother
  next heq =>
    obtain ⟨rfl, rfl⟩ := List.cons.inj heq
    exact if_neg hother

theorem compact_sound : compact.Sound where
  char := fun c => ⟨unitsOf c, scanUnits_escapeChar c, joinSurrogates_unitsOf c⟩
  gap := fun _ hc => absurd hc List.not_mem_nil

theorem ascii_sound : ascii.Sound where
  char := compact_sound.char
  gap := List.forall_mem_singleton.mpr rfl

theorem unicode_sound : unicode.Sound where
  char := by
    intro c
    by_cases hc : c = '"' ∨ c = '\\' ∨ c.toNat < 0x20
    · refine ⟨unitsOf c, fun text => ?_, joinSurrogates_unitsOf c⟩
      rw [show unicode.escape c = escapeChar c from if_pos hc]
      exact scanUnits_escapeChar c text
    · refine ⟨[c.toNat], fun text => ?_, joinSurrogates_char c⟩
      rw [show unicode.escape c = [c] from if_neg hc]
      exact scanUnits_verbatim hc text
  gap := fun c hc => by
    obtain rfl := List.mem_singleton.mp hc
    rfl

variable {style : Style}

theorem Style.Sound.scanString (h : style.Sound) (s : String) :
    scanString (s.toList.flatMap style.escape ++ '"' :: rest) = some (s, rest) := by
  have hunits : ∀ cs : List Char, ∃ units, scanUnits (cs.flatMap style.escape ++ '"' :: rest) = some (units, rest) ∧
      joinSurrogates units = cs := by
    intro cs
    induction cs with
    | nil => exact ⟨[], rfl, rfl⟩
    | cons c cs ih =>
        obtain ⟨units, hscan, hjoin⟩ := ih
        obtain ⟨more, hchar, hone⟩ := h.char c
        refine ⟨more ++ units, ?_, by rw [hone, hjoin]⟩
        rw [List.flatMap_cons, List.append_assoc, hchar, hscan, Option.map_some]
  obtain ⟨units, hscan, hjoin⟩ := hunits s.toList
  rw [Json.scanString, hscan, Option.map_some, hjoin, String.ofList_toList]

theorem Style.Sound.skipGap (h : style.Sound) {c : Char} {text : List Char} (hc : isWhitespace c = false) :
    skipWhitespace (style.gap ++ c :: text) = c :: text := by
  rw [skipWhitespace, List.dropWhile_append_of_pos h.gap]
  exact skipWhitespace_cons hc

theorem Style.dump_start (style : Style) (v : Value) : ∃ c cs, style.dump v = c :: cs ∧ Starts c := by
  have start {c : Char} {cs text : List Char} (h : text = c :: cs) (hs : Starts c) :
      ∃ c cs, text = c :: cs ∧ Starts c := ⟨c, cs, h, hs⟩
  have hquote : Starts '"' := ⟨rfl, by decide, by decide⟩
  have hbracket : Starts '[' := ⟨rfl, by decide, by decide⟩
  have hbrace : Starts '{' := ⟨rfl, by decide, by decide⟩
  cases v with
  | null => exact ⟨'n', _, by rw [Style.dump]; rfl, rfl, by decide, by decide⟩
  | bool b =>
      cases b with
      | true => exact ⟨'t', _, by rw [Style.dump]; rfl, rfl, by decide, by decide⟩
      | false => exact ⟨'f', _, by rw [Style.dump]; rfl, rfl, by decide, by decide⟩
  | number n =>
      obtain ⟨c, cs, htext, hc, _⟩ := numberText_start n
      exact ⟨c, cs, by rw [Style.dump]; exact htext, hc⟩
  | str s => exact start (by rw [Style.dump, Style.string]) hquote
  | array items => cases items <;> exact start (by rw [Style.dump]) hbracket
  | object members => cases members <;> exact start (by rw [Style.dump]) hbrace

theorem Style.dumpItems_ends (style : Style) (items : List Value) :
    Ends (style.dumpItems items ++ ']' :: rest) := by
  cases items with
  | nil => rw [Style.dumpItems]; exact ends_cons (by decide)
  | cons item items => rw [Style.dumpItems]; exact ends_cons (by decide)

theorem Style.dumpMembers_ends (style : Style) (members : List (String × Value)) :
    Ends (style.dumpMembers members ++ '}' :: rest) := by
  cases members with
  | nil => rw [Style.dumpMembers]; exact ends_cons (by decide)
  | cons m members => rw [Style.dumpMembers]; exact ends_cons (by decide)

/-- With this fuel the three scanners give back what was written in the style. -/
structure Style.Reads (style : Style) (fuel : Nat) : Prop where
  value : ∀ (v : Value) (rest : List Char), (style.dump v).length < fuel →
    Ends rest → scanOnce fuel (style.dump v ++ rest) = some (v, rest)
  items : ∀ (item : Value) (items : List Value) (rest : List Char),
    (style.dump item).length + (style.dumpItems items).length + 1 < fuel →
    scanItems fuel (style.dump item ++ (style.dumpItems items ++ ']' :: rest)) = some (item :: items, rest)
  members : ∀ (key : String) (value : Value) (members : List (String × Value)) (rest : List Char),
    (style.string key).length + (style.dump value).length + (style.dumpMembers members).length + 1 < fuel →
    scanMembers fuel (style.string key ++ (':' :: (style.gap ++ (style.dump value ++
      (style.dumpMembers members ++ '}' :: rest))))) = some ((key, value) :: members, rest)

variable {fuel : Nat}

theorem Style.Sound.scanOnce_dump (h : style.Sound) (ih : style.Reads fuel) (v : Value) (rest : List Char)
    (hfuel : (style.dump v).length < fuel + 1) (hrest : Ends rest) :
    scanOnce (fuel + 1) (style.dump v ++ rest) = some (v, rest) := by
  cases v with
  | null => rw [Style.dump]; rfl
  | bool b => cases b <;> (rw [Style.dump]; rfl)
  | number n =>
      obtain ⟨c, cs, htext, _, hquote, hbrace, hbracket⟩ := numberText_start n
      have hatom := scanAtom_number n hrest
      rw [htext] at hatom
      rw [Style.dump, htext, List.cons_append, scanOnce_atom hquote hbrace hbracket]
      exact hatom
  | str s =>
      rw [Style.dump, Style.string, List.cons_append, List.append_assoc, scanOnce, List.singleton_append,
        h.scanString, Option.map_some]
  | array items =>
      cases items with
      | nil => rw [Style.dump]; rfl
      | cons item items =>
          rw [Style.dump] at hfuel ⊢
          simp only [List.length_cons, List.length_append, List.length_nil] at hfuel
          have hitems := ih.items item items rest (by omega)
          obtain ⟨c, cs, htext, hspace, hclose, _⟩ := style.dump_start item
          simp only [List.cons_append, List.append_assoc, List.nil_append]
          rw [htext, List.cons_append] at hitems ⊢
          rw [scanOnce_array (skipWhitespace_cons hspace) hclose, hitems, Option.map_some]
  | object members =>
      cases members with
      | nil => rw [Style.dump]; rfl
      | cons m members =>
          rw [Style.dump] at hfuel ⊢
          simp only [List.length_cons, List.length_append, List.length_nil] at hfuel
          have hmembers := ih.members m.1 m.2 members rest (by omega)
          simp only [Style.string, List.cons_append, List.append_assoc, List.nil_append] at hmembers ⊢
          rw [scanOnce_object (skipWhitespace_cons rfl) (by decide), hmembers, Option.map_some]

theorem Style.Sound.scanItems_dump (h : style.Sound) (ih : style.Reads fuel) (item : Value) (items : List Value)
    (rest : List Char) (hfuel : (style.dump item).length + (style.dumpItems items).length + 1 < fuel + 1) :
    scanItems (fuel + 1) (style.dump item ++ (style.dumpItems items ++ ']' :: rest)) =
      some (item :: items, rest) := by
  have hitem := ih.value item (style.dumpItems items ++ ']' :: rest) (by omega) (style.dumpItems_ends items)
  rw [scanItems, hitem, Option.bind_some]
  dsimp only
  cases items with
  | nil => rw [Style.dumpItems]; rfl
  | cons next items =>
      rw [Style.dumpItems] at hfuel
      simp only [List.length_cons, List.length_append] at hfuel
      have hnext := ih.items next items rest (by omega)
      obtain ⟨c, cs, htext, hspace, _⟩ := style.dump_start next
      rw [htext, List.cons_append] at hnext
      rw [Style.dumpItems, List.cons_append, skipWhitespace_cons rfl]
      change Option.map _ (scanItems fuel (skipWhitespace _)) = _
      rw [List.append_assoc, List.append_assoc, htext, List.cons_append, h.skipGap hspace, hnext,
        Option.map_some]

theorem Style.Sound.scanMembers_dump (h : style.Sound) (ih : style.Reads fuel) (key : String) (value : Value)
    (members : List (String × Value)) (rest : List Char)
    (hfuel : (style.string key).length + (style.dump value).length +
      (style.dumpMembers members).length + 1 < fuel + 1) :
    scanMembers (fuel + 1) (style.string key ++ (':' :: (style.gap ++ (style.dump value ++
      (style.dumpMembers members ++ '}' :: rest))))) = some ((key, value) :: members, rest) := by
  have hvalue := ih.value value (style.dumpMembers members ++ '}' :: rest) (by omega)
    (style.dumpMembers_ends members)
  obtain ⟨c, cs, htext, hspace, _⟩ := style.dump_start value
  rw [htext, List.cons_append] at hvalue
  rw [Style.string, List.cons_append, List.append_assoc, List.singleton_append, scanMembers,
    h.scanString, Option.bind_some]
  dsimp only
  rw [skipWhitespace_cons rfl]
  change (scanOnce fuel (skipWhitespace (style.gap ++ (style.dump value ++ _)))).bind _ = _
  rw [htext, List.cons_append, h.skipGap hspace, hvalue, Option.bind_some]
  dsimp only
  cases members with
  | nil => rw [Style.dumpMembers]; rfl
  | cons m members =>
      rw [Style.dumpMembers] at hfuel
      simp only [List.length_cons, List.length_append] at hfuel
      have hnext := ih.members m.1 m.2 members rest (by omega)
      simp only [Style.string, List.cons_append, List.append_assoc, List.nil_append] at hnext
      rw [Style.dumpMembers]
      simp only [Style.string, List.cons_append, List.append_assoc, List.nil_append]
      rw [skipWhitespace_cons rfl]
      change Option.map _ (scanMembers fuel (skipWhitespace (style.gap ++ _))) = _
      rw [h.skipGap rfl, hnext, Option.map_some]

theorem Style.Sound.reads (h : style.Sound) (fuel : Nat) : style.Reads fuel := by
  induction fuel with
  | zero =>
      exact ⟨fun _ _ h => absurd h (Nat.not_lt_zero _), fun _ _ _ h => absurd h (Nat.not_lt_zero _),
        fun _ _ _ _ h => absurd h (Nat.not_lt_zero _)⟩
  | succ fuel ih => exact ⟨h.scanOnce_dump ih, h.scanItems_dump ih, h.scanMembers_dump ih⟩

/-- Reading a value written in a sound style gives it back, also with whitespace after it. -/
theorem Style.Sound.loads_dump_append (h : style.Sound) (v : Value) {tail : List Char} (hends : Ends tail)
    (hblank : skipWhitespace tail = []) : loads (style.dump v ++ tail) = some v := by
  obtain ⟨c, cs, htext, hspace, _⟩ := style.dump_start v
  have hscan := (h.reads ((style.dump v ++ tail).length + 1)).value v tail (by
    rw [List.length_append]
    omega) hends
  have hskip : skipWhitespace (style.dump v ++ tail) = style.dump v ++ tail := by
    rw [htext]
    exact skipWhitespace_cons hspace
  rw [loads, hskip, hscan, Option.bind_some, if_pos hblank]

theorem Style.Sound.loads_dump (h : style.Sound) (v : Value) : loads (style.dump v) = some v := by
  have hloads := h.loads_dump_append v ends_nil rfl
  rwa [List.append_nil] at hloads

/-- A character that ASCII prints. -/
def Printable (c : Char) : Prop := ' ' ≤ c ∧ c ≤ '~'

instance (c : Char) : Decidable (Printable c) := inferInstanceAs (Decidable (_ ∧ _))

theorem printable_of_all {text : List Char} (h : text.all (fun c => decide (Printable c)) = true) :
    ∀ c ∈ text, Printable c := fun c hc => of_decide_eq_true (List.all_eq_true.mp h c hc)

theorem printable_digits {digits : List Char} (h : ∀ c ∈ digits, isDigit c) : ∀ c ∈ digits, Printable c := by
  intro c hc
  have hdigit := of_decide_eq_true (h c hc)
  have hzero : ' ' ≤ '0' := by decide
  have hnine : '9' ≤ '~' := by decide
  exact ⟨Char.le_trans hzero hdigit.1, Char.le_trans hdigit.2 hnine⟩

theorem printable_sign (negative : Bool) : ∀ c ∈ sign negative, Printable c := by
  cases negative
  · exact fun c hc => absurd hc List.not_mem_nil
  · exact List.forall_mem_singleton.mpr (by decide)

theorem printable_fraction {fraction : List Char} (h : IsFraction fraction) : ∀ c ∈ fraction, Printable c := by
  rcases h with rfl | ⟨digits, rfl, _, hdigits⟩
  · exact fun c hc => absurd hc List.not_mem_nil
  · exact List.forall_mem_cons.mpr ⟨by decide, printable_digits hdigits⟩

theorem printable_exponent {exponent : List Char} (h : IsExponent exponent) : ∀ c ∈ exponent, Printable c := by
  rcases h with rfl | ⟨e, sign, digits, rfl, he, hsign, _, hdigits⟩
  · exact fun c hc => absurd hc List.not_mem_nil
  · have hsign : ∀ c ∈ sign, Printable c := by
      rcases hsign with rfl | rfl | rfl
      · exact fun c hc => absurd hc List.not_mem_nil
      all_goals exact List.forall_mem_singleton.mpr (by decide)
    have he : Printable e := by
      rcases he with rfl | rfl <;> decide
    exact List.forall_mem_cons.mpr ⟨he, List.forall_mem_append.mpr ⟨hsign, printable_digits hdigits⟩⟩

theorem printable_number (n : Number) : ∀ c ∈ n.text, Printable c := by
  cases n with
  | int n =>
      exact List.forall_mem_append.mpr ⟨printable_sign _, printable_digits (natText_isDigit _)⟩
  | float x =>
      rw [Number.text, FloatLiteral.text]
      simp only [List.forall_mem_append]
      have hwhole := printable_digits (natText_isDigit x.whole)
      have hfraction := printable_fraction x.isFraction
      have hexponent := printable_exponent x.isExponent
      exact ⟨printable_sign x.negative, hwhole, hfraction, hexponent⟩
  | nan => exact printable_of_all (by decide)
  | infinity negative => cases negative <;> exact printable_of_all (by decide)

theorem printable_unicodeEscape (n : Nat) : ∀ c ∈ unicodeEscape n, Printable c := by
  have hhex : ∀ d < 16, Printable (hexChar d) := by decide
  have hmod : ∀ m : Nat, Printable (hexChar (m % 16)) := fun m => hhex _ (Nat.mod_lt m (by decide))
  rw [unicodeEscape]
  intro c hc
  simp only [List.mem_cons, List.not_mem_nil, or_false] at hc
  rcases hc with rfl | rfl | rfl | rfl | rfl | rfl
  · decide
  · decide
  all_goals exact hmod _

theorem printable_escapeChar (c : Char) : ∀ d ∈ escapeChar c, Printable d := by
  rw [escapeChar]
  split
  · exact printable_of_all (by decide)
  split
  · exact printable_of_all (by decide)
  split
  · exact printable_of_all (by decide)
  split
  · exact printable_of_all (by decide)
  split
  · exact printable_of_all (by decide)
  split
  · exact printable_of_all (by decide)
  split
  · exact printable_of_all (by decide)
  split
  next hrange => exact List.forall_mem_singleton.mpr hrange
  next =>
    split
    · exact printable_unicodeEscape _
    · exact List.forall_mem_append.mpr ⟨printable_unicodeEscape _, printable_unicodeEscape _⟩

/-- The characters that a style writes. -/
structure Style.Writes (style : Style) (p : Char → Prop) : Prop where
  printable : ∀ c, Printable c → p c
  escape : ∀ c, ∀ d ∈ style.escape c, p d
  gap : ∀ c ∈ style.gap, p c

theorem compact_writes : compact.Writes Printable :=
  ⟨fun _ h => h, printable_escapeChar, fun _ hc => absurd hc List.not_mem_nil⟩

theorem ascii_writes : ascii.Writes Printable :=
  ⟨fun _ h => h, printable_escapeChar, List.forall_mem_singleton.mpr (by decide)⟩

/-- No control character, so in particular no end of line. -/
theorem unicode_writes : unicode.Writes (' ' ≤ ·) where
  printable := fun _ h => h.1
  escape := by
    intro c d hd
    change d ∈ escapeControl c at hd
    rw [escapeControl] at hd
    split at hd
    · exact (printable_escapeChar c d hd).1
    · next h =>
        obtain rfl := List.mem_singleton.mp hd
        have hlarge := not_lt.mp (not_or.mp (not_or.mp h).2).2
        exact hlarge
  gap := List.forall_mem_singleton.mpr (by decide)

variable {p : Char → Prop}

theorem Style.Writes.string (h : style.Writes p) (s : String) : ∀ c ∈ style.string s, p c := by
  have hquote : p '"' := h.printable _ (by decide)
  refine List.forall_mem_cons.mpr ⟨hquote, List.forall_mem_append.mpr ⟨?_, List.forall_mem_singleton.mpr hquote⟩⟩
  intro c hc
  obtain ⟨d, _, hd⟩ := List.mem_flatMap.mp hc
  exact h.escape d c hd

theorem Style.Writes.of_printable (h : style.Writes p) {text : List Char} (htext : ∀ c ∈ text, Printable c) :
    ∀ c ∈ text, p c := fun c hc => h.printable c (htext c hc)

mutual

theorem Style.Writes.dump (h : style.Writes p) : (v : Value) → ∀ c ∈ style.dump v, p c
  | .null => by rw [Style.dump]; exact h.of_printable (printable_of_all (by decide))
  | .bool b => by cases b <;> (rw [Style.dump]; exact h.of_printable (printable_of_all (by decide)))
  | .number n => by rw [Style.dump]; exact h.of_printable (printable_number n)
  | .str s => by rw [Style.dump]; exact h.string s
  | .array [] => by rw [Style.dump]; exact h.of_printable (printable_of_all (by decide))
  | .array (item :: items) => by
      rw [Style.dump]
      simp only [List.forall_mem_cons, List.forall_mem_append, List.not_mem_nil, false_implies, implies_true,
        and_true]
      exact ⟨h.printable _ (by decide), h.dump item, h.dumpItems items, h.printable _ (by decide)⟩
  | .object [] => by rw [Style.dump]; exact h.of_printable (printable_of_all (by decide))
  | .object ((key, value) :: members) => by
      rw [Style.dump]
      simp only [List.forall_mem_cons, List.forall_mem_append, List.not_mem_nil, false_implies, implies_true,
        and_true]
      exact ⟨h.printable _ (by decide), h.string key, h.printable _ (by decide), h.gap, h.dump value,
        h.dumpMembers members, h.printable _ (by decide)⟩

theorem Style.Writes.dumpItems (h : style.Writes p) : (items : List Value) → ∀ c ∈ style.dumpItems items, p c
  | [] => by rw [Style.dumpItems]; exact fun _ hc => absurd hc List.not_mem_nil
  | item :: items => by
      rw [Style.dumpItems]
      simp only [List.forall_mem_cons, List.forall_mem_append]
      exact ⟨h.printable _ (by decide), h.gap, h.dump item, h.dumpItems items⟩

theorem Style.Writes.dumpMembers (h : style.Writes p) :
    (members : List (String × Value)) → ∀ c ∈ style.dumpMembers members, p c
  | [] => by rw [Style.dumpMembers]; exact fun _ hc => absurd hc List.not_mem_nil
  | (key, value) :: members => by
      rw [Style.dumpMembers]
      simp only [List.forall_mem_cons, List.forall_mem_append]
      exact ⟨h.printable _ (by decide), h.gap, h.string key, h.printable _ (by decide), h.gap, h.dump value,
        h.dumpMembers members⟩

end

end styles

end Blockchecks.Json
