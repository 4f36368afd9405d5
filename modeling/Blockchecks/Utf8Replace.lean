import Mathlib.Data.List.Basic

namespace Blockchecks.Utf8Replace

/-- What the bytes since the last character are: a character, the beginning of one, or neither. -/
inductive Parse where
  | whole (c : Char)
  | more
  | bad
  deriving DecidableEq

/-- The range of the second byte keeps out overlong forms, surrogates and what lies beyond Unicode. -/
def secondRange (lead : Nat) : Nat × Nat :=
  if lead = 0xE0 then (0xA0, 0xBF)
  else if lead = 0xED then (0x80, 0x9F)
  else if lead = 0xF0 then (0x90, 0xBF)
  else if lead = 0xF4 then (0x80, 0x8F)
  else (0x80, 0xBF)

/-- The bytes in front of the last one are the beginning of a character. -/
def parse : List UInt8 → Parse
  | [a] =>
      if a.toNat < 0x80 then .whole (Char.ofNat a.toNat)
      else if 0xC2 ≤ a.toNat ∧ a.toNat ≤ 0xF4 then .more
      else .bad
  | [a, b] =>
      if (secondRange a.toNat).1 ≤ b.toNat ∧ b.toNat ≤ (secondRange a.toNat).2 then
        if a.toNat < 0xE0 then .whole (Char.ofNat ((a.toNat - 0xC0) * 64 + (b.toNat - 0x80))) else .more
      else .bad
  | [a, b, c] =>
      if 0x80 ≤ c.toNat ∧ c.toNat ≤ 0xBF then
        if a.toNat < 0xF0 then
          .whole (Char.ofNat (((a.toNat - 0xE0) * 64 + (b.toNat - 0x80)) * 64 + (c.toNat - 0x80)))
        else .more
      else .bad
  | [a, b, c, d] =>
      if 0x80 ≤ d.toNat ∧ d.toNat ≤ 0xBF then
        .whole (Char.ofNat ((((a.toNat - 0xF0) * 64 + (b.toNat - 0x80)) * 64 + (c.toNat - 0x80)) * 64 +
          (d.toNat - 0x80)))
      else .bad
  | _ => .bad

def replacement : Char := '\ufffd'

/-- A byte at the beginning of a character: the bytes that wait, and the characters. -/
def start (b : UInt8) : List UInt8 × List Char :=
  match parse [b] with
  | .whole c => ([], [c])
  | .more => ([b], [])
  | .bad => ([], [replacement])

/-- A byte that does not go on with the character ends it with a replacement. -/
def step (pending : List UInt8) (b : UInt8) : List UInt8 × List Char :=
  if pending = [] then start b
  else match parse (pending ++ [b]) with
    | .whole c => ([], [c])
    | .more => (pending ++ [b], [])
    | .bad => ((start b).1, replacement :: (start b).2)

def pendingAfter (pending : List UInt8) : List UInt8 → List UInt8
  | [] => pending
  | b :: bytes => pendingAfter (step pending b).1 bytes

def emitted (pending : List UInt8) : List UInt8 → List Char
  | [] => []
  | b :: bytes => (step pending b).2 ++ emitted (step pending b).1 bytes

def flush (pending : List UInt8) : List Char := if pending = [] then [] else [replacement]

/-- The text of the bytes, of which some wait. -/
def decodeFrom (pending bytes : List UInt8) : List Char := emitted pending bytes ++ flush (pendingAfter pending bytes)

/-- UTF-8 with a replacement character for each maximal part that is none. -/
def decode (bytes : List UInt8) : List Char := decodeFrom [] bytes

variable {p q s t : List UInt8} {b : UInt8} {c : Char} {n : Nat}

theorem emitted_append (p s t : List UInt8) :
    emitted p (s ++ t) = emitted p s ++ emitted (pendingAfter p s) t := by
  induction s generalizing p with
  | nil => rfl
  | cons b s ih => rw [List.cons_append, emitted, emitted, ih, pendingAfter, List.append_assoc]

theorem pendingAfter_append (p s t : List UInt8) :
    pendingAfter p (s ++ t) = pendingAfter (pendingAfter p s) t := by
  induction s generalizing p with
  | nil => rfl
  | cons b s ih => rw [List.cons_append, pendingAfter, pendingAfter, ih]

theorem decode_append (s t : List UInt8) :
    decode (s ++ t) = emitted [] s ++ decodeFrom (pendingAfter [] s) t := by
  rw [decode, decodeFrom, emitted_append, pendingAfter_append, List.append_assoc, decodeFrom]

theorem decode_nil : decode [] = [] := rfl

theorem decodeFrom_cons (p t : List UInt8) (b : UInt8) :
    decodeFrom p (b :: t) = (step p b).2 ++ decodeFrom (step p b).1 t := by
  rw [decodeFrom, emitted, pendingAfter, List.append_assoc, decodeFrom]

/-- What waits is the beginning of a character, byte by byte. -/
def Waiting (p : List UInt8) : Prop := ∀ q, q ≠ [] → q <+: p → parse q = .more

theorem waiting_nil : Waiting [] := fun _ hne hq => absurd (List.prefix_nil.mp hq) hne

theorem waiting_concat (hp : Waiting p) (h : parse (p ++ [b]) = .more) : Waiting (p ++ [b]) := by
  intro q hne hq
  rcases List.prefix_concat_iff.mp hq with rfl | hq
  · exact h
  · exact hp q hne hq

theorem waiting_start (b : UInt8) : Waiting (start b).1 := by
  rw [start]
  cases h : parse [b] with
  | whole c => exact waiting_nil
  | bad => exact waiting_nil
  | more => exact waiting_concat waiting_nil h

theorem waiting_step (hp : Waiting p) (b : UInt8) : Waiting (step p b).1 := by
  rw [step]
  by_cases hne : p = []
  · rw [if_pos hne]
    exact waiting_start b
  · rw [if_neg hne]
    cases h : parse (p ++ [b]) with
    | whole c => exact waiting_nil
    | bad => exact waiting_start b
    | more => exact waiting_concat hp h

theorem waiting_pendingAfter (hp : Waiting p) (s : List UInt8) : Waiting (pendingAfter p s) := by
  induction s generalizing p with
  | nil => exact hp
  | cons b s ih => exact ih (waiting_step hp b)

theorem secondRange_tail (lead : Nat) : 0x80 ≤ (secondRange lead).1 ∧ (secondRange lead).2 ≤ 0xBF := by
  rw [secondRange]
  split_ifs <;> exact ⟨by decide, by decide⟩

/-- Only a byte of the middle range goes on with a character. -/
theorem tail_of_parse (hp : p ≠ []) (h : parse (p ++ [b]) ≠ .bad) : 0x80 ≤ b.toNat ∧ b.toNat ≤ 0xBF := by
  match p, hp with
  | [a], _ =>
      rw [List.singleton_append, parse] at h
      by_cases hb : (secondRange a.toNat).1 ≤ b.toNat ∧ b.toNat ≤ (secondRange a.toNat).2
      · have hr := secondRange_tail a.toNat
        omega
      · rw [if_neg hb] at h
        exact absurd rfl h
  | [a, a₂], _ =>
      by_cases hb : 0x80 ≤ b.toNat ∧ b.toNat ≤ 0xBF
      · exact hb
      · exact absurd (if_neg hb) h
  | [a, a₂, a₃], _ =>
      by_cases hb : 0x80 ≤ b.toNat ∧ b.toNat ≤ 0xBF
      · exact hb
      · exact absurd (if_neg hb) h
  | a :: a₂ :: a₃ :: a₄ :: p, _ =>
      refine absurd ?_ h
      cases p <;> rfl

/-- Such a byte is no beginning. -/
theorem start_tail (h : 0x80 ≤ b.toNat ∧ b.toNat ≤ 0xBF) : start b = ([], [replacement]) := by
  rw [start, parse, if_neg (by omega), if_neg (by omega)]

theorem decode_tail (h : 0x80 ≤ b.toNat ∧ b.toNat ≤ 0xBF) (t : List UInt8) :
    decode (b :: t) = replacement :: decode t := by
  rw [decode, decodeFrom_cons, step, if_pos rfl, start_tail h]
  rfl

/-- Only a valid code point gives a character other than the null one. -/
theorem eq_toNat_of_ofNat_eq {n : Nat} (h : Char.ofNat n = c) (hc : c.toNat ≠ 0) : n = c.toNat := by
  by_cases hn : n.isValidChar
  · rw [← h, Char.ofNat, dif_pos hn]
    rfl
  · rw [Char.ofNat, dif_neg hn] at h
    rw [← h] at hc
    exact absurd rfl hc

/-- The bytes of a code point. -/
inductive Encodes : List UInt8 → Nat → Prop
  | one (a : UInt8) : a.toNat < 0x80 → Encodes [a] a.toNat
  | two (a b : UInt8) : 0xC2 ≤ a.toNat → a.toNat < 0xE0 → 0x80 ≤ b.toNat → b.toNat ≤ 0xBF →
      Encodes [a, b] ((a.toNat - 0xC0) * 64 + (b.toNat - 0x80))
  | three (a b c : UInt8) : 0xE0 ≤ a.toNat → a.toNat < 0xF0 → 0x80 ≤ b.toNat → b.toNat ≤ 0xBF →
      (a.toNat = 0xE0 → 0xA0 ≤ b.toNat) → 0x80 ≤ c.toNat → c.toNat ≤ 0xBF →
      Encodes [a, b, c] (((a.toNat - 0xE0) * 64 + (b.toNat - 0x80)) * 64 + (c.toNat - 0x80))
  | four (a b c d : UInt8) : 0xF0 ≤ a.toNat → 0x80 ≤ b.toNat → (a.toNat = 0xF0 → 0x90 ≤ b.toNat) →
      0x80 ≤ c.toNat → 0x80 ≤ d.toNat →
      Encodes [a, b, c, d] ((((a.toNat - 0xF0) * 64 + (b.toNat - 0x80)) * 64 + (c.toNat - 0x80)) * 64 +
        (d.toNat - 0x80))

theorem secondRange_lead {lead : Nat} {b : UInt8}
    (h : (secondRange lead).1 ≤ b.toNat ∧ b.toNat ≤ (secondRange lead).2) :
    0x80 ≤ b.toNat ∧ b.toNat ≤ 0xBF ∧ (lead = 0xE0 → 0xA0 ≤ b.toNat) ∧ (lead = 0xF0 → 0x90 ≤ b.toNat) := by
  have htail := secondRange_tail lead
  refine ⟨by omega, by omega, ?_, ?_⟩
  · rintro rfl
    exact h.1
  · rintro rfl
    exact h.1

theorem lead_of_more {a : UInt8} (h : parse [a] = .more) : 0xC2 ≤ a.toNat := by
  rw [parse] at h
  split_ifs at h with _ hlead
  exact hlead.1

theorem second_of_more {a : UInt8} (h : parse [a, b] = .more) :
    0xE0 ≤ a.toNat ∧ (secondRange a.toNat).1 ≤ b.toNat ∧ b.toNat ≤ (secondRange a.toNat).2 := by
  rw [parse] at h
  split_ifs at h with hb hlead
  exact ⟨Nat.le_of_not_lt hlead, hb⟩

theorem third_of_more {a a₂ : UInt8} (h : parse [a, a₂, b] = .more) :
    0xF0 ≤ a.toNat ∧ 0x80 ≤ b.toNat ∧ b.toNat ≤ 0xBF := by
  rw [parse] at h
  split_ifs at h with hb hlead
  exact ⟨Nat.le_of_not_lt hlead, hb⟩

/-- A completed character has the code point that its bytes encode. -/
theorem encodes_of_whole (hp : Waiting p) (h : parse (p ++ [b]) = .whole c) :
    ∃ n, Encodes (p ++ [b]) n ∧ c = Char.ofNat n := by
  match p, hp with
  | [], _ =>
      rw [List.nil_append, parse] at h
      split_ifs at h with ha
      exact ⟨_, .one b ha, (Parse.whole.inj h).symm⟩
  | [a], hp =>
      have hlead := lead_of_more (hp [a] (by simp) (List.prefix_refl _))
      rw [List.singleton_append, parse] at h
      split_ifs at h with hb ha
      obtain ⟨hlow, hhigh, -⟩ := secondRange_lead hb
      exact ⟨_, .two a b hlead ha hlow hhigh, (Parse.whole.inj h).symm⟩
  | [a, a₂], hp =>
      obtain ⟨hlead, hsecond⟩ := second_of_more (hp [a, a₂] (by simp) (List.prefix_refl _))
      obtain ⟨hlow, hhigh, hover, -⟩ := secondRange_lead hsecond
      change parse [a, a₂, b] = _ at h
      rw [parse] at h
      split_ifs at h with hb ha
      exact ⟨_, .three a a₂ b hlead ha hlow hhigh hover hb.1 hb.2, (Parse.whole.inj h).symm⟩
  | [a, a₂, a₃], hp =>
      obtain ⟨-, hsecond⟩ := second_of_more (hp [a, a₂] (by simp) ⟨[a₃], rfl⟩)
      obtain ⟨hlow, -, -, hover⟩ := secondRange_lead hsecond
      obtain ⟨hlead, hthird⟩ := third_of_more (hp [a, a₂, a₃] (by simp) (List.prefix_refl _))
      change parse [a, a₂, a₃, b] = _ at h
      rw [parse] at h
      split_ifs at h with hb
      exact ⟨_, .four a a₂ a₃ b hlead hlow hover hthird.1 hb.1, (Parse.whole.inj h).symm⟩
  | a :: a₂ :: a₃ :: a₄ :: p, _ =>
      cases p with
      | nil => exact Parse.noConfusion h
      | cons a₅ p => exact Parse.noConfusion h

/-- One byte encodes an ASCII character, and several never do. -/
theorem singleton_of_ascii {bytes : List UInt8} (h : Encodes bytes n) (hn : n < 0x80) :
    ∃ a, bytes = [a] ∧ a.toNat = n := by
  cases h with
  | one a ha => exact ⟨a, rfl, rfl⟩
  | two a b ha => omega
  | three a b c ha => omega
  | four a b c d ha => omega

theorem ascii_le (h : Encodes (p ++ [b]) n) (hne : p ≠ []) : 0x80 ≤ n := by
  by_contra hn
  obtain ⟨a, ha, -⟩ := singleton_of_ascii h (Nat.lt_of_not_le hn)
  exact hne (List.append_eq_singleton_iff.mp ha |>.resolve_right (by simp)).1

theorem ne_of_ascii (hn : 0x80 ≤ n) (hc : c.toNat ≠ 0) (hascii : c.toNat < 0x80) : Char.ofNat n ≠ c := by
  intro h
  have heq := eq_toNat_of_ofNat_eq h hc
  omega

/-- Where bytes wait, the first character is the one they begin, or a replacement that
stands for them and no more. What follows is read as it would be without them, up to the
replacements of the bytes that went on with the character. -/
theorem decodeFrom_waiting (hp : Waiting p) (hne : p ≠ []) (t : List UInt8) :
    ∃ q rest c, t = q ++ rest ∧ decodeFrom p t = c :: decode rest ∧
      decode t = List.replicate q.length replacement ++ decode rest ∧
      (q = [] → c = replacement) ∧ c ≠ '\n' ∧ c ≠ '\r' := by
  induction t generalizing p with
  | nil =>
      refine ⟨[], [], replacement, rfl, ?_, rfl, fun _ => rfl, by decide, by decide⟩
      exact congrArg _ (if_neg hne)
  | cons b t ih =>
      rw [decodeFrom_cons, step, if_neg hne]
      cases h : parse (p ++ [b]) with
      | whole c =>
          have htail := tail_of_parse hne (by rw [h]; exact fun h => Parse.noConfusion h)
          obtain ⟨n, hn, rfl⟩ := encodes_of_whole hp h
          have hascii := ascii_le hn hne
          refine ⟨[b], t, _, rfl, rfl, decode_tail htail t, fun h => absurd h (by simp), ?_, ?_⟩
          · exact ne_of_ascii hascii (by decide) (by decide)
          · exact ne_of_ascii hascii (by decide) (by decide)
      | more =>
          have htail := tail_of_parse hne (by rw [h]; exact fun h => Parse.noConfusion h)
          obtain ⟨q, rest, c, rfl, hfrom, hdecode, -, hn, hr⟩ := ih (waiting_concat hp h) (by simp)
          refine ⟨b :: q, rest, c, rfl, hfrom, ?_, fun h => absurd h (by simp), hn, hr⟩
          rw [decode_tail htail, hdecode]
          rfl
      | bad =>
          refine ⟨[], b :: t, replacement, rfl, ?_, rfl, fun _ => rfl, by decide, by decide⟩
          rw [decode, decodeFrom_cons, step, if_pos rfl]
          rfl

theorem decode_ne_nil (h : t ≠ []) : decode t ≠ [] := by
  cases t with
  | nil => exact absurd rfl h
  | cons b t =>
      rw [decode, decodeFrom_cons, step, if_pos rfl, start]
      cases hb : parse [b] with
      | whole c => exact List.cons_ne_nil _ _
      | bad => exact List.cons_ne_nil _ _
      | more =>
          obtain ⟨q, rest, c, -, hfrom, -⟩ :=
            decodeFrom_waiting (waiting_concat waiting_nil hb) (List.cons_ne_nil b []) t
          rw [List.nil_append] at hfrom
          rw [List.nil_append, hfrom]
          exact List.cons_ne_nil _ _

/-- The text begins with a newline exactly if the bytes do. -/
theorem head_decode (t : List UInt8) : (decode t).head? = some '\n' ↔ t.head? = some 0x0A := by
  cases t with
  | nil => exact ⟨fun h => absurd h (by simp [decode_nil]), fun h => absurd h (by simp)⟩
  | cons b t =>
      have hbyte : b = 0x0A ↔ b.toNat = 0x0A := UInt8.toNat_inj.symm
      rw [decode, decodeFrom_cons, step, if_pos rfl, start, List.head?_cons, Option.some_inj, hbyte]
      cases hb : parse [b] with
      | whole c =>
          rw [parse] at hb
          split_ifs at hb with hascii
          rw [← Parse.whole.inj hb]
          constructor
          · exact fun h => eq_toNat_of_ofNat_eq (Option.some.inj h) (by decide)
          · exact fun h => by rw [h]; rfl
      | bad =>
          refine ⟨fun h => absurd (Option.some.inj h) (by decide), fun h => ?_⟩
          rw [parse, h] at hb
          exact Parse.noConfusion hb
      | more =>
          obtain ⟨q, rest, c, -, hfrom, -, -, hc, -⟩ :=
            decodeFrom_waiting (waiting_concat waiting_nil hb) (List.cons_ne_nil b []) t
          rw [List.nil_append] at hfrom
          change (decodeFrom [b] t).head? = some '\n' ↔ _
          rw [hfrom]
          refine ⟨fun h => absurd (Option.some.inj h) hc, fun h => ?_⟩
          rw [parse, h] at hb
          exact Parse.noConfusion hb

/-- A byte that goes on with nothing begins anew. -/
theorem step_fresh (h : ¬ (0x80 ≤ b.toNat ∧ b.toNat ≤ 0xBF)) (p : List UInt8) :
    ∃ cut, step p b = ((start b).1, cut ++ (start b).2) := by
  rw [step]
  by_cases hne : p = []
  · exact ⟨[], if_pos hne⟩
  · have hbad : parse (p ++ [b]) = .bad := by
      by_contra hparse
      exact h (tail_of_parse hne hparse)
    rw [if_neg hne, hbad]
    exact ⟨[replacement], rfl⟩

/-- What waits is the end of the bytes. -/
theorem step_suffix (p : List UInt8) (b : UInt8) : (step p b).1 <:+ p ++ [b] := by
  have hstart : (start b).1 <:+ p ++ [b] := by
    rw [start]
    cases parse [b] with
    | whole c => exact List.nil_suffix
    | bad => exact List.nil_suffix
    | more => exact ⟨p, rfl⟩
  rw [step]
  by_cases hne : p = []
  · rw [if_pos hne]
    exact hstart
  · rw [if_neg hne]
    cases parse (p ++ [b]) with
    | whole c => exact List.nil_suffix
    | bad => exact hstart
    | more => exact List.suffix_refl _

theorem pendingAfter_suffix (p s : List UInt8) : pendingAfter p s <:+ p ++ s := by
  induction s generalizing p with
  | nil => exact ⟨[], (List.append_nil p).symm⟩
  | cons b s ih =>
      have hstep : (step p b).1 ++ s <:+ p ++ [b] ++ s := List.suffix_append_self_iff.mpr (step_suffix p b)
      rw [List.append_assoc] at hstep
      exact (ih _).trans hstep

/-- Where a fresh byte stands, the text before it ends. -/
theorem decode_fresh (h : ¬ (0x80 ≤ b.toNat ∧ b.toNat ≤ 0xBF)) (s t : List UInt8) :
    ∃ before, decode (s ++ b :: t) = before ++ decode (b :: t) := by
  obtain ⟨cut, hstep⟩ := step_fresh h (pendingAfter [] s)
  refine ⟨emitted [] s ++ cut, ?_⟩
  have hdecode : decode (b :: t) = (start b).2 ++ decodeFrom (start b).1 t := by
    rw [decode, decodeFrom_cons, step, if_pos rfl]
  rw [decode_append, decodeFrom_cons, hstep, hdecode, List.append_assoc, List.append_assoc]

theorem decode_of_pending (h : pendingAfter [] s ≠ []) : decode s = emitted [] s ++ [replacement] := by
  rw [decode, decodeFrom, flush, if_neg h]

theorem decode_of_done (h : pendingAfter [] s = []) : decode s = emitted [] s := by
  rw [decode, decodeFrom, flush, if_pos h, List.append_nil]

theorem start_done (h : (start b).1 = []) :
    ∃ c, (start b).2 = [c] ∧ (c = replacement ∨ parse [b] = .whole c) := by
  rw [start] at h ⊢
  cases hb : parse [b] with
  | whole c => exact ⟨c, rfl, Or.inr rfl⟩
  | bad => exact ⟨replacement, rfl, Or.inl rfl⟩
  | more =>
      rw [hb] at h
      exact absurd h (List.cons_ne_nil _ _)

/-- After a byte that leaves none waiting, the last character is one that the byte completes. -/
theorem step_done (h : (step p b).1 = []) :
    ∃ cut c, (step p b).2 = cut ++ [c] ∧
      (c = replacement ∨ parse [b] = .whole c ∨ parse (p ++ [b]) = .whole c) := by
  rw [step] at h ⊢
  by_cases hne : p = []
  · rw [if_pos hne] at h ⊢
    obtain ⟨c, hc, hparse⟩ := start_done h
    exact ⟨[], c, hc, hparse.imp_right Or.inl⟩
  · rw [if_neg hne] at h ⊢
    cases hb : parse (p ++ [b]) with
    | whole c => exact ⟨[], c, rfl, Or.inr (Or.inr rfl)⟩
    | more =>
        rw [hb] at h
        exact absurd h (by simp)
    | bad =>
        rw [hb] at h
        obtain ⟨c, hc, hparse⟩ := start_done h
        exact ⟨[replacement], c, congrArg _ hc, hparse.imp_right Or.inl⟩

/-- The last character of a text, if it is no replacement, is encoded by the last bytes. -/
theorem encodes_of_getLast (h : (decode s).getLast? = some c) (hc : c ≠ replacement) :
    ∃ bytes n, Encodes bytes n ∧ bytes <:+ s ∧ c = Char.ofNat n := by
  have hdone : pendingAfter [] s = [] := by
    by_contra hne
    rw [decode_of_pending hne, List.getLast?_concat] at h
    exact hc (Option.some.inj h).symm
  rw [decode_of_done hdone] at h
  rcases List.eq_nil_or_concat s with rfl | ⟨s, b, rfl⟩
  · exact absurd h (by simp [emitted])
  · rw [List.concat_eq_append] at hdone h ⊢
    have hsuffix : pendingAfter [] s ++ [b] <:+ s ++ [b] :=
      List.suffix_append_self_iff.mpr (pendingAfter_suffix [] s)
    rw [pendingAfter_append] at hdone
    obtain ⟨cut, d, hcut, hparse⟩ := step_done hdone
    rw [emitted_append, emitted, emitted, List.append_nil, hcut, ← List.append_assoc,
      List.getLast?_concat] at h
    obtain rfl : d = c := Option.some.inj h
    rcases hparse with rfl | hparse | hparse
    · exact absurd rfl hc
    · obtain ⟨n, hn, hd⟩ := encodes_of_whole (p := []) waiting_nil hparse
      exact ⟨[b], n, hn, ⟨s, rfl⟩, hd⟩
    · obtain ⟨n, hn, hd⟩ := encodes_of_whole (waiting_pendingAfter waiting_nil s) hparse
      exact ⟨_, n, hn, hsuffix, hd⟩

end Blockchecks.Utf8Replace
