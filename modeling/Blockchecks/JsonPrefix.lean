import Blockchecks.JsonRoundTrip

namespace Blockchecks.Json

/-- A character after which a number or a word has ended. -/
def Stops (rest : List Char) : Prop :=
  ∃ c cs, rest = c :: cs ∧ (isWhitespace c = true ∨ c ∈ [',', ']', '}'])

def Delimited (text : List Char) : Prop := ∃ c ∈ ['"', '{', '['], text.head? = some c

variable {text rest : List Char}

theorem dropWhile_append_of_ne_nil {p : Char → Bool} (h : text.dropWhile p ≠ []) (tail : List Char) :
    (text ++ tail).takeWhile p = text.takeWhile p ∧
      (text ++ tail).dropWhile p = text.dropWhile p ++ tail := by
  induction text with
  | nil => exact absurd rfl h
  | cons c cs ih =>
      by_cases hc : p c = true
      · rw [List.dropWhile_cons, if_pos hc] at h
        obtain ⟨htake, hdrop⟩ := ih h
        simp [hc, htake, hdrop]
      · simp [hc]

theorem skipWhitespace_append_of_ne_nil (h : skipWhitespace text ≠ []) (tail : List Char) :
    skipWhitespace (text ++ tail) = skipWhitespace text ++ tail :=
  (dropWhile_append_of_ne_nil h tail).2

theorem skipWhitespace_append {c : Char} {cs : List Char} (h : skipWhitespace text = c :: cs)
    (tail : List Char) : skipWhitespace (text ++ tail) = c :: (cs ++ tail) := by
  rw [skipWhitespace_append_of_ne_nil (by rw [h]; exact List.cons_ne_nil c cs), h, List.cons_append]

theorem stops_of_skipWhitespace {c : Char} {cs : List Char} (h : skipWhitespace text = c :: cs)
    (hc : c ∈ [',', ']', '}']) : Stops text := by
  cases text with
  | nil => cases h
  | cons d ds =>
      by_cases hd : isWhitespace d = true
      · exact ⟨d, ds, rfl, Or.inl hd⟩
      · rw [skipWhitespace_cons (by simpa using hd)] at h
        exact ⟨d, ds, rfl, Or.inr ((List.cons.inj h).1 ▸ hc)⟩

section strings

theorem scanUnits_append {units : List Nat} (h : scanUnits text = some (units, rest))
    (tail : List Char) : scanUnits (text ++ tail) = some (units, rest ++ tail) := by
  fun_induction scanUnits text generalizing units with
  | case1 => cases h
  | case2 rest' =>
      cases h
      rfl
  | case3 a b c d cs ih =>
      obtain ⟨n, hn, hmap⟩ := Option.bind_eq_some_iff.mp h
      obtain ⟨p, hp, heq⟩ := Option.map_eq_some_iff.mp hmap
      cases heq
      simp only [List.cons_append]
      rw [scanUnits, hn, Option.bind_some, ih hp, Option.map_some]
      rfl
  | case4 c cs hne ih =>
      obtain ⟨n, hn, hmap⟩ := Option.bind_eq_some_iff.mp h
      obtain ⟨p, hp, heq⟩ := Option.map_eq_some_iff.mp hmap
      cases heq
      have hu : c ≠ 'u' := by
        rintro rfl
        cases hn
      simp only [List.cons_append]
      rw [scanUnits, hn, Option.bind_some, ih hp, Option.map_some]
      · rfl
      · exact fun _ _ _ _ _ heq => absurd heq hu
  | case5 c cs hquote hu hslash hc => cases h
  | case6 c cs hquote hu hslash hc ih =>
      obtain ⟨p, hp, heq⟩ := Option.map_eq_some_iff.mp h
      cases heq
      simp only [List.cons_append]
      rw [scanUnits, if_neg hc, ih hp, Option.map_some]
      · rfl
      · exact hquote
      · intro a b d e r hslash' heq
        exact hc (Or.inl hslash')
      · intro d r hslash' heq
        exact hc (Or.inl hslash')

theorem scanString_append {s : String} (h : scanString text = some (s, rest)) (tail : List Char) :
    scanString (text ++ tail) = some (s, rest ++ tail) := by
  obtain ⟨⟨units, after⟩, hunits, heq⟩ := Option.map_eq_some_iff.mp h
  cases heq
  rw [scanString, scanUnits_append hunits tail, Option.map_some]

end strings

section numbers

theorem Stops.append (h : Stops rest) (tail : List Char) : Stops (rest ++ tail) := by
  obtain ⟨c, cs, rfl, hc⟩ := h
  exact ⟨c, cs ++ tail, rfl, hc⟩

theorem Stops.head_not {c : Char} {cs : List Char} (h : Stops (c :: cs)) :
    c ≠ '.' ∧ c ≠ 'e' ∧ c ≠ 'E' := by
  obtain ⟨d, ds, heq, hd⟩ := h
  obtain ⟨rfl, rfl⟩ := List.cons.inj heq
  refine ⟨?_, ?_, ?_⟩ <;> (rintro rfl; revert hd; decide)

theorem Stops.fraction (h : Stops rest) : scanFraction rest = ([], rest) := by
  obtain ⟨c, cs, rfl, hc⟩ := h
  have hdot := (Stops.head_not ⟨c, cs, rfl, hc⟩).1
  rw [scanFraction]
  exact fun _ heq => hdot (List.cons.inj heq).1

theorem Stops.exponent (h : Stops rest) : Json.scanExponent rest = ([], rest) := by
  obtain ⟨c, cs, rfl, hc⟩ := h
  have hhead := (Stops.head_not ⟨c, cs, rfl, hc⟩).2
  rw [scanExponent, if_neg (fun hexp => hexp.1.elim hhead.1 hhead.2)]

theorem scanNat_append {n : Nat} (h : scanNat text = some (n, rest)) (hrest : rest ≠ [])
    (tail : List Char) : scanNat (text ++ tail) = some (n, rest ++ tail) := by
  rw [scanNat.eq_def] at h
  split at h
  next after =>
    cases h
    rfl
  next hzero =>
    dsimp only at h
    split at h
    · cases h
    next hdigits =>
      cases h
      obtain ⟨htake, hdrop⟩ := dropWhile_append_of_ne_nil hrest tail
      rw [scanNat.eq_def]
      split
      next after heq =>
        cases text with
        | nil => exact absurd rfl hdigits
        | cons c cs => exact absurd (congrArg (· :: cs) (List.cons.inj heq).1) (hzero cs)
      next =>
        dsimp only
        rw [htake, hdrop, if_neg hdigits]

theorem not_stops_nil : ¬ Stops [] := by
  rintro ⟨c, cs, heq, _⟩
  cases heq

theorem scanExponentSign_append (h : text ≠ []) (tail : List Char) :
    scanExponentSign (text ++ tail) = ((scanExponentSign text).1, (scanExponentSign text).2 ++ tail) := by
  cases text with
  | nil => exact absurd rfl h
  | cons c cs =>
      rw [scanExponentSign.eq_def (c :: cs)]
      split
      next heq =>
        cases heq
        rfl
      next heq =>
        cases heq
        rfl
      next hplus hminus =>
        rw [scanExponentSign.eq_def]
        split
        next heq => exact absurd (congrArg (· :: cs) (List.cons.inj heq).1) (hplus cs)
        next heq => exact absurd (congrArg (· :: cs) (List.cons.inj heq).1) (hminus cs)
        next => rfl

theorem scanExponent_append_of_stops (h : Stops (Json.scanExponent text).2) (tail : List Char) :
    Json.scanExponent (text ++ tail) =
      ((Json.scanExponent text).1, (Json.scanExponent text).2 ++ tail) := by
  cases text with
  | nil => exact absurd h not_stops_nil
  | cons e cs =>
      by_cases hexp : (e = 'e' ∨ e = 'E') ∧ (scanExponentSign cs).2.takeWhile isDigit ≠ []
      · have heval : Json.scanExponent (e :: cs) = (e :: ((scanExponentSign cs).1 ++
            (scanExponentSign cs).2.takeWhile isDigit), (scanExponentSign cs).2.dropWhile isDigit) := by
          rw [scanExponent]
          exact if_pos hexp
        rw [heval] at h ⊢
        have hcs : cs ≠ [] := by
          rintro rfl
          exact hexp.2 rfl
        have hdrop : (scanExponentSign cs).2.dropWhile isDigit ≠ [] := by
          intro hnil
          rw [hnil] at h
          exact not_stops_nil h
        obtain ⟨htake, hdrop⟩ := dropWhile_append_of_ne_nil hdrop tail
        rw [List.cons_append, scanExponent]
        dsimp only
        rw [scanExponentSign_append hcs, htake, hdrop, if_pos hexp]
      · have heval : Json.scanExponent (e :: cs) = ([], e :: cs) := by
          rw [scanExponent]
          exact if_neg hexp
        rw [heval] at h ⊢
        exact (h.append tail).exponent

theorem scanFraction_append_of_stops (h : Stops (Json.scanExponent (scanFraction text).2).2)
    (tail : List Char) :
    scanFraction (text ++ tail) = ((scanFraction text).1, (scanFraction text).2 ++ tail) := by
  cases text with
  | nil => exact absurd h not_stops_nil
  | cons c cs =>
      by_cases hdot : c = '.'
      · subst hdot
        by_cases hdigits : cs.takeWhile isDigit = []
        · have heval : scanFraction ('.' :: cs) = ([], '.' :: cs) := by
            rw [scanFraction]
            exact if_pos hdigits
          rw [heval] at h
          exact absurd rfl (Stops.head_not h).1
        · have heval : scanFraction ('.' :: cs) = ('.' :: cs.takeWhile isDigit, cs.dropWhile isDigit) := by
            rw [scanFraction]
            exact if_neg hdigits
          rw [heval] at h ⊢
          have hdrop : cs.dropWhile isDigit ≠ [] := by
            intro hnil
            rw [hnil] at h
            exact not_stops_nil h
          obtain ⟨htake, hdrop⟩ := dropWhile_append_of_ne_nil hdrop tail
          rw [List.cons_append, scanFraction, htake, hdrop, if_neg hdigits]
      · have heval : ∀ ds, scanFraction (c :: ds) = ([], c :: ds) := by
          intro ds
          rw [scanFraction]
          exact fun _ heq => hdot (List.cons.inj heq).1
        rw [List.cons_append, heval, heval, List.cons_append]

theorem scanDigits_append {n : Number} (h : scanDigits text = some (n, rest)) (hstop : Stops rest)
    (tail : List Char) : scanDigits (text ++ tail) = some (n, rest ++ tail) := by
  obtain ⟨⟨whole, after⟩, hnat, hnumber⟩ := Option.map_eq_some_iff.mp h
  have hsign : scanSign (text ++ tail) = ((scanSign text).1, (scanSign text).2 ++ tail) := by
    cases text with
    | nil => cases hnat
    | cons c cs =>
        rw [scanSign.eq_def (c :: cs)]
        split
        next heq =>
          cases heq
          rfl
        next hminus =>
          rw [scanSign.eq_def]
          split
          next heq => exact absurd (congrArg (· :: cs) (List.cons.inj heq).1) (hminus cs)
          next => rfl
  dsimp only at hnumber
  split at hnumber
  next hint =>
    cases hnumber
    have hafter : rest ≠ [] := by
      rintro rfl
      exact not_stops_nil hstop
    rw [scanDigits, hsign]
    dsimp only
    rw [scanNat_append hnat hafter, Option.map_some]
    dsimp only
    have hfraction := (hstop.append tail).fraction
    have hexponent := (hstop.append tail).exponent
    rw [dif_pos (by rw [hfraction, hexponent]; rfl)]
  next hfloat =>
    cases hnumber
    have hfraction := scanFraction_append_of_stops hstop tail
    have hexponent := scanExponent_append_of_stops hstop tail
    have hafter : after ≠ [] := by
      rintro rfl
      exact not_stops_nil hstop
    rw [scanDigits, hsign]
    dsimp only
    rw [scanNat_append hnat hafter, Option.map_some]
    dsimp only
    rw [dif_neg (by rw [hfraction, hexponent]; exact hfloat)]
    simp only [hfraction, hexponent]

/-- A number begins with a digit, perhaps after a sign. -/
theorem scanDigits_start {n : Number} (h : scanDigits text = some (n, rest)) :
    ∃ negative c cs, text = sign negative ++ c :: cs ∧ isDigit c = true := by
  have start : ∀ {ds : List Char} {p : Nat × List Char}, scanNat ds = some p →
      ∃ c cs, ds = c :: cs ∧ isDigit c = true := by
    intro ds p hnat
    rw [scanNat.eq_def] at hnat
    split at hnat
    next after => exact ⟨'0', after, rfl, rfl⟩
    next =>
      dsimp only at hnat
      split at hnat
      next => cases hnat
      next hdigits =>
        cases ds with
        | nil => exact absurd rfl hdigits
        | cons c cs =>
            refine ⟨c, cs, rfl, ?_⟩
            by_contra hc
            exact hdigits (by rw [List.takeWhile_cons, if_neg hc])
  obtain ⟨p, hnat, _⟩ := Option.map_eq_some_iff.mp h
  obtain ⟨c, cs, hds, hc⟩ := start hnat
  rw [scanSign.eq_def] at hds
  split at hds
  next => exact ⟨true, c, cs, congrArg _ hds, hc⟩
  next => exact ⟨false, c, cs, hds, hc⟩

theorem scanWord_append {word : String} (h : scanWord word text = some rest) (tail : List Char) :
    scanWord word (text ++ tail) = some (rest ++ tail) := by
  obtain ⟨hstarts, heq⟩ := Option.ite_none_right_eq_some.mp h
  obtain ⟨after, rfl⟩ := List.isPrefixOf_iff_prefix.mp hstarts
  cases heq
  rw [scanWord, if_pos]
  · simp
  · rw [List.isPrefixOf_iff_prefix, List.append_assoc]
    exact List.prefix_append _ _

theorem scanConstant_mem {words : List (String × Value)} {v : Value}
    (h : scanConstant words text = some (v, rest)) :
    ∃ w ∈ words, w.1.toList <+: text := by
  induction words with
  | nil => cases h
  | cons w words ih =>
      rw [scanConstant] at h
      split at h
      next hword =>
        have hstarts := (Option.ite_none_right_eq_some.mp hword).1
        exact ⟨w, List.mem_cons_self, List.isPrefixOf_iff_prefix.mp hstarts⟩
      next =>
        obtain ⟨u, hu, hstarts⟩ := ih h
        exact ⟨u, List.mem_cons_of_mem w hu, hstarts⟩

/-- No two of the words begin alike. -/
def Heads (words : List (String × Value)) : Prop :=
  words.Pairwise (fun a b => ∀ c ∈ b.1.toList.head?, c ∉ a.1.toList.head?) ∧
    ∀ w ∈ words, w.1.toList ≠ []

theorem scanConstant_append {words : List (String × Value)} {v : Value} (hwords : Heads words)
    (h : scanConstant words text = some (v, rest)) (tail : List Char) :
    scanConstant words (text ++ tail) = some (v, rest ++ tail) := by
  induction words with
  | nil => cases h
  | cons w words ih =>
      obtain ⟨hpair, hne⟩ := hwords
      obtain ⟨hfirst, hpair⟩ := List.pairwise_cons.mp hpair
      rw [scanConstant] at h
      split at h
      next after hword =>
        cases h
        rw [scanConstant, scanWord_append hword tail]
      next =>
        obtain ⟨u, hu, hstarts⟩ := scanConstant_mem h
        obtain ⟨c, cs, hcs⟩ := List.exists_cons_of_ne_nil (hne u (List.mem_cons_of_mem w hu))
        obtain ⟨d, ds, hds⟩ := List.exists_cons_of_ne_nil (hne w List.mem_cons_self)
        have hdc : d ≠ c := by
          rintro rfl
          exact hfirst u hu d (by rw [hcs]; rfl) (by rw [hds]; rfl)
        rw [hcs] at hstarts
        obtain ⟨after, rfl⟩ := hstarts
        have hmiss : scanWord w.1 (c :: cs ++ after ++ tail) = none := scanWord_head hds hdc
        rw [scanConstant, hmiss]
        exact ih ⟨hpair, fun x hx => hne x (List.mem_cons_of_mem w hx)⟩ h

theorem constants_heads : Heads constants := by
  refine ⟨?_, ?_⟩
  · simp [constants]
  · simp [constants]

theorem scanAtom_append {v : Value} (h : scanAtom text = some (v, rest)) (hstop : Stops rest)
    (tail : List Char) : scanAtom (text ++ tail) = some (v, rest ++ tail) := by
  rw [scanAtom] at h
  split at h
  next hconstant =>
    cases h
    rw [scanAtom, scanConstant_append constants_heads hconstant tail]
  next =>
    obtain ⟨⟨n, after⟩, hdigits, heq⟩ := Option.map_eq_some_iff.mp h
    cases heq
    obtain ⟨negative, c, cs, rfl, hc⟩ := scanDigits_start hdigits
    have hnone := scanConstant_digit hc negative (cs ++ tail)
    have htext : sign negative ++ c :: cs ++ tail = sign negative ++ c :: (cs ++ tail) := by
      rw [List.append_assoc, List.cons_append]
    rw [scanAtom, scanDigits_append hdigits hstop tail, htext, hnone]
    rfl

end numbers

/-- The scanners read no further than the value, and more fuel changes nothing. -/
structure NoLookahead (fuel : Nat) : Prop where
  value : ∀ {text rest : List Char} {v : Value}, scanOnce fuel text = some (v, rest) →
    Stops rest ∨ Delimited text → ∀ more, fuel ≤ more → ∀ tail,
      scanOnce more (text ++ tail) = some (v, rest ++ tail)
  items : ∀ {text rest : List Char} {items : List Value}, scanItems fuel text = some (items, rest) →
    ∀ more, fuel ≤ more → ∀ tail, scanItems more (text ++ tail) = some (items, rest ++ tail)
  members : ∀ {text rest : List Char} {members : List (String × Value)},
    scanMembers fuel text = some (members, rest) →
    ∀ more, fuel ≤ more → ∀ tail, scanMembers more (text ++ tail) = some (members, rest ++ tail)

theorem scanOnce_nil (fuel : Nat) : scanOnce fuel [] = none := by
  cases fuel with
  | zero => rfl
  | succ fuel => rfl

theorem scanItems_nil (fuel : Nat) : scanItems fuel [] = none := by
  cases fuel with
  | zero => rfl
  | succ fuel => rw [scanItems, scanOnce_nil, Option.bind_none]

theorem scanMembers_nil (fuel : Nat) : scanMembers fuel [] = none := by
  cases fuel with
  | zero => rfl
  | succ fuel => rfl

variable {fuel : Nat}

theorem scanOnce_append (ih : NoLookahead fuel) {v : Value} (h : scanOnce (fuel + 1) text = some (v, rest))
    (hends : Stops rest ∨ Delimited text) {more : Nat} (hmore : fuel ≤ more) (tail : List Char) :
    scanOnce (more + 1) (text ++ tail) = some (v, rest ++ tail) := by
  cases text with
  | nil => cases h
  | cons c cs =>
      by_cases hquote : c = '"'
      · subst hquote
        rw [scanOnce] at h
        obtain ⟨⟨s, after⟩, hs, heq⟩ := Option.map_eq_some_iff.mp h
        cases heq
        rw [List.cons_append, scanOnce, scanString_append hs tail, Option.map_some]
      by_cases hbrace : c = '{'
      · subst hbrace
        cases hskip : skipWhitespace cs with
        | nil =>
            rw [scanOnce, hskip] at h
            change (scanMembers fuel []).map _ = _ at h
            rw [scanMembers_nil] at h
            cases h
        | cons d ds =>
            have happend := skipWhitespace_append hskip tail
            by_cases hclose : d = '}'
            · subst hclose
              rw [scanOnce, hskip] at h
              cases h
              rw [List.cons_append, scanOnce, happend]
              rfl
            · rw [scanOnce_object hskip hclose] at h
              obtain ⟨⟨members, after⟩, hmembers, heq⟩ := Option.map_eq_some_iff.mp h
              cases heq
              rw [List.cons_append, scanOnce_object happend hclose, ← List.cons_append,
                ih.members hmembers more hmore tail, Option.map_some]
      by_cases hbracket : c = '['
      · subst hbracket
        cases hskip : skipWhitespace cs with
        | nil =>
            rw [scanOnce, hskip] at h
            change (scanItems fuel []).map _ = _ at h
            rw [scanItems_nil] at h
            cases h
        | cons d ds =>
            have happend := skipWhitespace_append hskip tail
            by_cases hclose : d = ']'
            · subst hclose
              rw [scanOnce, hskip] at h
              cases h
              rw [List.cons_append, scanOnce, happend]
              rfl
            · rw [scanOnce_array hskip hclose] at h
              obtain ⟨⟨items, after⟩, hitems, heq⟩ := Option.map_eq_some_iff.mp h
              cases heq
              rw [List.cons_append, scanOnce_array happend hclose, ← List.cons_append,
                ih.items hitems more hmore tail, Option.map_some]
      rw [scanOnce_atom hquote hbrace hbracket] at h
      rw [List.cons_append, scanOnce_atom hquote hbrace hbracket, ← List.cons_append]
      refine scanAtom_append h ?_ tail
      refine hends.resolve_right ?_
      rintro ⟨d, hd, heq⟩
      obtain rfl := Option.some.inj heq
      simp only [List.mem_cons, List.not_mem_nil, or_false] at hd
      exact hd.elim hquote (fun hd => hd.elim hbrace hbracket)

theorem scanItems_append (ih : NoLookahead fuel) {items : List Value}
    (h : scanItems (fuel + 1) text = some (items, rest)) {more : Nat} (hmore : fuel ≤ more)
    (tail : List Char) : scanItems (more + 1) (text ++ tail) = some (items, rest ++ tail) := by
  rw [scanItems] at h
  obtain ⟨⟨item, after⟩, hitem, hnext⟩ := Option.bind_eq_some_iff.mp h
  dsimp only at hnext
  split at hnext
  next ds hskip =>
    cases hnext
    have hstop := stops_of_skipWhitespace hskip (by decide)
    rw [scanItems, ih.value hitem (Or.inl hstop) more hmore tail, Option.bind_some]
    dsimp only
    rw [skipWhitespace_append hskip tail]
    rfl
  next ds hskip =>
    obtain ⟨⟨others, last⟩, hothers, heq⟩ := Option.map_eq_some_iff.mp hnext
    cases heq
    have hstop := stops_of_skipWhitespace hskip (by decide)
    have hne : skipWhitespace ds ≠ [] := by
      intro hnil
      rw [hnil, scanItems_nil] at hothers
      cases hothers
    rw [scanItems, ih.value hitem (Or.inl hstop) more hmore tail, Option.bind_some]
    dsimp only
    rw [skipWhitespace_append hskip tail]
    change (scanItems more (skipWhitespace (ds ++ tail))).map _ = _
    rw [skipWhitespace_append_of_ne_nil hne, ih.items hothers more hmore tail, Option.map_some]
  next => cases hnext

theorem scanMembers_append (ih : NoLookahead fuel) {members : List (String × Value)}
    (h : scanMembers (fuel + 1) text = some (members, rest)) {more : Nat} (hmore : fuel ≤ more)
    (tail : List Char) : scanMembers (more + 1) (text ++ tail) = some (members, rest ++ tail) := by
  rw [scanMembers.eq_def] at h
  dsimp only at h
  split at h
  next cs =>
    obtain ⟨⟨key, colon⟩, hkey, hvalue⟩ := Option.bind_eq_some_iff.mp h
    dsimp only at hvalue
    split at hvalue
    next ds hcolon =>
      obtain ⟨⟨v, after⟩, hv, hnext⟩ := Option.bind_eq_some_iff.mp hvalue
      have hds : skipWhitespace ds ≠ [] := by
        intro hnil
        rw [hnil, scanOnce_nil] at hv
        cases hv
      rw [List.cons_append, scanMembers, scanString_append hkey tail, Option.bind_some]
      dsimp only
      rw [skipWhitespace_append hcolon tail]
      change (scanOnce more (skipWhitespace (ds ++ tail))).bind _ = _
      rw [skipWhitespace_append_of_ne_nil hds]
      dsimp only at hnext
      split at hnext
      next es hskip =>
        cases hnext
        have hstop := stops_of_skipWhitespace hskip (by decide)
        rw [ih.value hv (Or.inl hstop) more hmore tail, Option.bind_some]
        dsimp only
        rw [skipWhitespace_append hskip tail]
        rfl
      next es hskip =>
        obtain ⟨⟨others, last⟩, hothers, heq⟩ := Option.map_eq_some_iff.mp hnext
        cases heq
        have hstop := stops_of_skipWhitespace hskip (by decide)
        have hne : skipWhitespace es ≠ [] := by
          intro hnil
          rw [hnil, scanMembers_nil] at hothers
          cases hothers
        rw [ih.value hv (Or.inl hstop) more hmore tail, Option.bind_some]
        dsimp only
        rw [skipWhitespace_append hskip tail]
        change (scanMembers more (skipWhitespace (es ++ tail))).map _ = _
        rw [skipWhitespace_append_of_ne_nil hne, ih.members hothers more hmore tail, Option.map_some]
      next => cases hnext
    next => cases hvalue
  next => cases h

theorem noLookahead (fuel : Nat) : NoLookahead fuel := by
  induction fuel with
  | zero => exact ⟨nofun, nofun, nofun⟩
  | succ fuel ih =>
      have step : ∀ more, fuel + 1 ≤ more → ∃ less, more = less + 1 ∧ fuel ≤ less :=
        fun more hmore => ⟨more - 1, by omega, by omega⟩
      refine ⟨?_, ?_, ?_⟩
      · intro text rest v h hends more hmore tail
        obtain ⟨less, rfl, hless⟩ := step more hmore
        exact scanOnce_append ih h hends hless tail
      · intro text rest items h more hmore tail
        obtain ⟨less, rfl, hless⟩ := step more hmore
        exact scanItems_append ih h hless tail
      · intro text rest members h more hmore tail
        obtain ⟨less, rfl, hless⟩ := step more hmore
        exact scanMembers_append ih h hless tail

/-- No text that goes on can be cut short of its closing bracket. -/
theorem loads_cut {indent : Option Nat} {members : List (String × Value)} {front back : List Char}
    (hdumps : dumps indent (.object members) = front ++ back) (hback : back ≠ []) :
    loads front = none := by
  have hbrace : ∃ cs, dumps indent (.object members) = '{' :: cs := by
    cases members with
    | nil => exact ⟨_, by rw [dumps, dumpAt]⟩
    | cons m members => exact ⟨_, by rw [dumps, dumpAt]⟩
  obtain ⟨cs, hcs⟩ := hbrace
  cases front with
  | nil => rfl
  | cons c front =>
      rw [hcs] at hdumps
      obtain rfl := (List.cons.inj hdumps).1
      have hskip : skipWhitespace ('{' :: front) = '{' :: front := skipWhitespace_cons rfl
      cases hloads : loads ('{' :: front) with
      | none => rfl
      | some v =>
          rw [loads, hskip] at hloads
          obtain ⟨⟨w, after⟩, hscan, hblank⟩ := Option.bind_eq_some_iff.mp hloads
          have hfuel : ('{' :: front).length + 1 ≤ ('{' :: cs).length + 1 := by
            rw [hdumps, List.length_append]
            omega
          have hlong := (noLookahead _).value hscan (Or.inr ⟨'{', by decide, rfl⟩) _ hfuel back
          have hwhole := (readsBack indent (('{' :: cs).length + 1)).value (.object members) 0 []
            (by rw [← dumps, hcs]; omega) ends_nil
          rw [← dumps, List.append_nil, hcs, hdumps] at hwhole
          rw [hdumps] at hlong
          have hrest := (Prod.mk.inj (Option.some.inj (hlong.symm.trans hwhole))).2
          exact absurd (List.append_eq_nil_iff.mp hrest).2 hback

section oneLine

theorem newline_not_mem_of_digits {digits : List Char} (h : ∀ c ∈ digits, isDigit c) : '\n' ∉ digits :=
  fun hmem => absurd (h '\n' hmem) (by decide)

theorem newline_not_mem_sign (negative : Bool) : '\n' ∉ sign negative := by
  cases negative <;> decide

theorem newline_not_mem_fraction {fraction : List Char} (h : IsFraction fraction) : '\n' ∉ fraction := by
  rcases h with rfl | ⟨digits, rfl, _, hdigits⟩
  · exact List.not_mem_nil
  · simpa using newline_not_mem_of_digits hdigits

theorem newline_not_mem_exponent {exponent : List Char} (h : IsExponent exponent) : '\n' ∉ exponent := by
  rcases h with rfl | ⟨e, sign, digits, rfl, he, hsign, _, hdigits⟩
  · exact List.not_mem_nil
  · have hdigits := newline_not_mem_of_digits hdigits
    have hsign : '\n' ∉ sign := by
      rcases hsign with rfl | rfl | rfl <;> decide
    rcases he with rfl | rfl <;> simp [hsign, hdigits]

theorem newline_not_mem_number (n : Number) : '\n' ∉ n.text := by
  cases n with
  | int n =>
      rw [Number.text, intText, List.mem_append, not_or]
      exact ⟨newline_not_mem_sign _, newline_not_mem_of_digits (natText_isDigit _)⟩
  | float x =>
      rw [Number.text, FloatLiteral.text]
      simp only [List.mem_append, not_or]
      exact ⟨newline_not_mem_sign _, newline_not_mem_of_digits (natText_isDigit _),
        newline_not_mem_fraction x.isFraction, newline_not_mem_exponent x.isExponent⟩
  | nan => decide
  | infinity negative => cases negative <;> decide

theorem newline_not_mem_unicodeEscape (n : Nat) : '\n' ∉ unicodeEscape n := by
  have hhex : ∀ d < 16, '\n' ≠ hexChar d := by decide
  have hmod : ∀ m : Nat, '\n' ≠ hexChar (m % 16) := fun m => hhex _ (Nat.mod_lt m (by decide))
  rw [unicodeEscape]
  simp only [List.mem_cons, List.not_mem_nil, or_false, not_or]
  exact ⟨by decide, by decide, hmod _, hmod _, hmod _, hmod _⟩

theorem newline_not_mem_escapeChar (c : Char) : '\n' ∉ escapeChar c := by
  rw [escapeChar]
  split
  · decide
  split
  · decide
  split
  · decide
  split
  · decide
  split
  · decide
  split
  · decide
  split
  · decide
  split
  next hnewline _ _ _ _ _ =>
    rw [List.mem_singleton]
    exact fun heq => hnewline heq.symm
  next =>
    split
    · exact newline_not_mem_unicodeEscape _
    · rw [List.mem_append, not_or]
      exact ⟨newline_not_mem_unicodeEscape _, newline_not_mem_unicodeEscape _⟩

theorem newline_not_mem_stringText (s : String) : '\n' ∉ stringText s := by
  rw [stringText]
  simp only [List.mem_cons, List.mem_append, List.mem_flatMap, List.not_mem_nil, or_false, not_or,
    not_exists, not_and]
  exact ⟨by decide, fun c _ => newline_not_mem_escapeChar c, by decide⟩

mutual

theorem newline_not_mem_dumpAt (level : Nat) : (v : Value) → '\n' ∉ dumpAt none level v
  | .null => by rw [dumpAt]; decide
  | .bool b => by cases b <;> (rw [dumpAt]; decide)
  | .number n => by rw [dumpAt]; exact newline_not_mem_number n
  | .str s => by rw [dumpAt]; exact newline_not_mem_stringText s
  | .array [] => by rw [dumpAt]; decide
  | .array (item :: items) => by
      have hitem := newline_not_mem_dumpAt (level + 1) item
      have hitems := newline_not_mem_dumpItems (level + 1) items
      simp [dumpAt, newline, hitem, hitems]
  | .object [] => by rw [dumpAt]; decide
  | .object ((key, value) :: members) => by
      have hkey := newline_not_mem_stringText key
      have hvalue := newline_not_mem_dumpAt (level + 1) value
      have hmembers := newline_not_mem_dumpMembers (level + 1) members
      simp [dumpAt, newline, hkey, hvalue, hmembers]

theorem newline_not_mem_dumpItems (level : Nat) : (items : List Value) → '\n' ∉ dumpItems none level items
  | [] => by rw [dumpItems]; exact List.not_mem_nil
  | item :: items => by
      have hitem := newline_not_mem_dumpAt level item
      have hitems := newline_not_mem_dumpItems level items
      simp [dumpItems, separator, hitem, hitems]

theorem newline_not_mem_dumpMembers (level : Nat) :
    (members : List (String × Value)) → '\n' ∉ dumpMembers none level members
  | [] => by rw [dumpMembers]; exact List.not_mem_nil
  | (key, value) :: members => by
      have hkey := newline_not_mem_stringText key
      have hvalue := newline_not_mem_dumpAt level value
      have hmembers := newline_not_mem_dumpMembers level members
      simp [dumpMembers, separator, hkey, hvalue, hmembers]

end

/-- Without an indent a value is written on one line. -/
theorem newline_not_mem_dumps (v : Value) : '\n' ∉ dumps none v := newline_not_mem_dumpAt 0 v

end oneLine

end Blockchecks.Json
