import Blockchecks.FieldCodes
import Blockchecks.StandardGenerator

namespace Blockchecks.FamilyCodes

open FamilyAxes FamilyExpanders FieldCodes

abbrev Text := List Char

/-- A digest of three bytes in hex. -/
def isDigest (text : Text) : Bool := text.length == 6 && text.all (fun c => c.isDigit || ('a' ≤ c && c ≤ 'f'))

/-- Whether a label ends in a digest, as cmdLabel writes it. -/
def Hashed (label : String) : Prop := isDigest (lastPart '_' label.toList) = true

/-- What a companion adds to the label and the strategy of its core. The
automatic TTL has no name of its own in a voice family. -/
inductive Tail where
  | core
  | ack
  | md5
  | ttl (t : Nat)
  | auto (t : String)
  | voice (t : String)

namespace Tail

def label : Tail → String
  | core => ""
  | ack => "_ackdrop"
  | md5 => "_sendmd5"
  | ttl t => "_ttl" ++ toString t
  | auto t => "_autottl" ++ t
  | voice _ => "_autottl"

def strategy : Tail → String
  | core => ""
  | ack => ackDropTail
  | md5 => sendMd5Tail
  | ttl t => ttlClause (toString t)
  | auto t | voice t => ttlClause t

def IsCore (t : Tail) : Prop := t = core

/-- The companions of a core outside the voice families. No value of an
automatic TTL has an underscore. -/
def Companion : Tail → Prop
  | auto t => '_' ∉ t.toList
  | voice _ => False
  | _ => True

def VoiceCompanion : Tail → Prop
  | core | ttl _ | voice _ => True
  | _ => False

theorem toList_ttl (n : Nat) : (ttl n).label.toList = '_' :: 't' :: 't' :: 'l' :: Nat.toDigits 10 n := by
  rw [label, String.toList_append, Nat.toString_eq_repr, Nat.toList_repr]
  rfl

theorem toList_auto (text : String) :
    (auto text).label.toList = '_' :: 'a' :: 'u' :: 't' :: 'o' :: 't' :: 't' :: 'l' :: text.toList := by
  rw [label, String.toList_append]
  rfl

theorem toList_voice (text : String) :
    (voice text).label.toList = ['_', 'a', 'u', 't', 'o', 't', 't', 'l'] := by
  simp [label]

theorem marked (t : Tail) : Marked '_' t.label.toList := by
  cases t with
  | core => exact marked_nil
  | ack => exact Or.inr ⟨"ackdrop".toList, by decide⟩
  | md5 => exact Or.inr ⟨"sendmd5".toList, by decide⟩
  | ttl n => exact toList_ttl n ▸ marked_cons
  | auto text => exact toList_auto text ▸ marked_cons
  | voice text => exact toList_voice text ▸ marked_cons

/-- The companion that a name is of, where no TTL of a voice family is told. -/
def ofLabel : Text → Tail
  | [] => core
  | '_' :: 'a' :: 'c' :: _ => ack
  | '_' :: 's' :: _ => md5
  | '_' :: 't' :: 't' :: 'l' :: text => ttl (Nat.ofDigitChars 10 text 0)
  | '_' :: 'a' :: 'u' :: 't' :: 'o' :: 't' :: 't' :: 'l' :: text => auto (String.ofList text)
  | _ => core

theorem ofLabel_ttl (n : Nat) : ofLabel (ttl n).label.toList = ttl n := by
  rw [toList_ttl, ofLabel, Nat.ofDigitChars_ten_toDigits]

theorem ofLabel_label {t : Tail} (h : t.Companion) : ofLabel t.label.toList = t := by
  cases t with
  | core => rfl
  | ack => rfl
  | md5 => rfl
  | ttl n => exact ofLabel_ttl n
  | auto text => rw [toList_auto, ofLabel, String.ofList_toList]
  | voice text => exact h.elim

theorem eq_of_label {t t' : Tail} (ht : t.Companion) (ht' : t'.Companion) (h : t.label = t'.label) : t = t' := by
  rw [← ofLabel_label ht, ← ofLabel_label ht', h]

/-- All automatic companions of a voice core have one name, the others their
own. -/
theorem voice_of_label {t t' : Tail} (ht : t.VoiceCompanion) (ht' : t'.VoiceCompanion)
    (h : t.label = t'.label) : t = t' ∨ ∃ a b, t = voice a ∧ t' = voice b := by
  have hof := congrArg (fun label => ofLabel label.toList) h
  have hvoice (text : String) : ofLabel (voice text).label.toList = auto "" := by
    rw [toList_voice]
    rfl
  cases t with
  | core =>
      cases t' with
      | core => exact Or.inl rfl
      | ttl n => exact nomatch hof.trans (ofLabel_ttl n)
      | voice b => exact nomatch hof.trans (hvoice b)
      | ack | md5 | auto _ => exact ht'.elim
  | ttl m =>
      have hof := (ofLabel_ttl m).symm.trans hof
      cases t' with
      | core => exact nomatch hof
      | ttl n => exact Or.inl (hof.trans (ofLabel_ttl n))
      | voice b => exact nomatch hof.trans (hvoice b)
      | ack | md5 | auto _ => exact ht'.elim
  | voice a =>
      have hof := (hvoice a).symm.trans hof
      cases t' with
      | core => exact nomatch hof
      | ttl n => exact nomatch hof.trans (ofLabel_ttl n)
      | voice b => exact Or.inr ⟨a, b, rfl, rfl⟩
      | ack | md5 | auto _ => exact ht'.elim
  | ack | md5 | auto _ => exact ht.elim

theorem isDigest_eq_false {text : Text} {c : Char} (hc : c ∈ text)
    (hhex : (c.isDigit || ('a' ≤ c && c ≤ 'f')) = false) : isDigest text = false := by
  rw [isDigest, Bool.and_eq_false_iff]
  refine Or.inr (List.all_eq_false.mpr ⟨c, hc, ?_⟩)
  rw [hhex]
  exact Bool.false_ne_true

/-- No companion's name ends in a digest. -/
theorem isDigest_label {t : Tail} (ht : t.Companion ∨ t.VoiceCompanion) :
    t = core ∨ '_' ∈ t.label.toList ∧ isDigest (lastPart '_' t.label.toList) = false := by
  cases t with
  | core => exact Or.inl rfl
  | ack => exact Or.inr (by decide)
  | md5 => exact Or.inr (by decide)
  | voice text => exact Or.inr (by rw [toList_voice]; decide)
  | ttl n =>
      refine Or.inr ?_
      rw [toList_ttl, lastPart_cons]
      · exact ⟨List.mem_cons_self, isDigest_eq_false (c := 't') (by simp) (by decide)⟩
      · simp
  | auto text =>
      refine Or.inr ?_
      have hplain : '_' ∉ text.toList := ht.elim id False.elim
      rw [toList_auto, lastPart_cons]
      · exact ⟨List.mem_cons_self, isDigest_eq_false (c := 'u') (by simp) (by decide)⟩
      · simp [hplain]

end Tail

def col (text : String) (values : List String) : Column Char := ⟨text.toList, values.map String.toList⟩

def numbers : List Nat := allRepeats ++ [100, 260, 568, 652, 664, 679, 681]

def digits (n : Nat) : Text := Nat.toDigits 10 n

theorem toList_number (n : Nat) : (toString n).toList = digits n := by
  rw [Nat.toString_eq_repr, Nat.toList_repr, digits]

def numberCol (text : String) : Column Char := ⟨text.toList, numbers.map digits⟩

/-- Every fooling of a family at any scan level. -/
def allFools : List String := fastFoolingsTcp ++ allFoolingsTcp ++ allFoolingsIpv6

def foolCol : Column Char := ⟨"_".toList, (allFools.map foolName).map String.toList⟩

theorem closed_numbers : Closed '_' (numbers.map digits) := by decide

theorem closed_numbers_plus : Closed '+' (numbers.map digits) := by decide

theorem closed_fools : Closed '_' foolCol.values := by decide

theorem mem_col {text : String} {values : List String} {v : String} (h : v ∈ values) :
    v.toList ∈ (col text values).values := List.mem_map_of_mem h

theorem mem_numberCol {text : String} {n : Nat} (h : n ∈ numbers) : digits n ∈ (numberCol text).values :=
  List.mem_map_of_mem h

theorem mem_foolCol {fool : String} (h : fool ∈ allFools) : (foolName fool).toList ∈ foolCol.values :=
  List.mem_map_of_mem (List.mem_map_of_mem h)

theorem digits_injective {m n : Nat} (h : digits m = digits n) : m = n := by
  have hdigits := congrArg (Nat.ofDigitChars 10 · 0) h
  simpa only [digits, Nat.ofDigitChars_ten_toDigits] using hdigits

theorem foolName_injective {f g : String} (hf : f ∈ allFools) (hg : g ∈ allFools)
    (h : (foolName f).toList = (foolName g).toList) : f = g := by
  have hname : "nofool" ∉ allFools := by decide
  have h := String.toList_injective h
  simp only [foolName] at h
  split at h <;> split at h
  next hf' hg' => rw [hf', hg']
  next => exact absurd (h ▸ hg) hname
  next => exact absurd (h ▸ hf) hname
  next => exact h

/-- The values of the last column, with the text that they stand behind. -/
def endings : List (Column Char) → List Text
  | [] => []
  | [c] => c.values.map (c.text ++ ·)
  | _ :: columns => endings columns

/-- How the labels of some rows are written: the core of a row in columns that
tell its strategy, and the companions that it has. -/
structure Coding (β : Type) where
  core : β → Row
  dom : β → Prop
  tail : Tail → Prop
  mark : Char
  columns : List (Column Char)
  values : β → List Text
  separated : Separated mark columns
  fits : ∀ a, dom a → Fits columns (values a)
  label : ∀ a, dom a → (core a).1.toList = render columns (values a)
  strategy : ∀ a b, dom a → dom b → values a = values b → (core a).2 = (core b).2
  marked : ∀ t, tail t → Marked mark t.label.toList
  ending : ∀ e ∈ endings columns, '_' ∈ e ∧ isDigest (lastPart '_' e) = false

namespace Coding

variable {β : Type} {c : Coding β} {p q row : Row}

def rowOf (c : Coding β) (a : β) (t : Tail) : Row := ((c.core a).1 ++ t.label, (c.core a).2 ++ t.strategy)

/-- The rows of a core and its companions. -/
def Has (c : Coding β) (row : Row) : Prop := ∃ a t, c.dom a ∧ c.tail t ∧ row = c.rowOf a t

def head (c : Coding β) : Text := FieldCodes.head c.columns

theorem toList_label (c : Coding β) {a : β} (ha : c.dom a) (t : Tail) :
    (c.rowOf a t).1.toList = render c.columns (c.values a) ++ t.label.toList := by
  rw [rowOf, String.toList_append, c.label a ha]

/-- One label has one core and one name of a companion. -/
theorem core_of_label {a b : β} {t t' : Tail} (ha : c.dom a) (hb : c.dom b) (ht : c.tail t)
    (ht' : c.tail t') (h : (c.rowOf a t).1 = (c.rowOf b t').1) :
    (c.core a).2 = (c.core b).2 ∧ t.label = t'.label := by
  have h := congrArg String.toList h
  rw [c.toList_label ha, c.toList_label hb] at h
  obtain ⟨hvalues, htail⟩ := render_cancel c.separated (c.fits a ha) (c.fits b hb) (c.marked t ht)
    (c.marked t' ht') h
  exact ⟨c.strategy a b ha hb hvalues, String.toList_injective htail⟩

theorem same (htail : ∀ t t', c.tail t → c.tail t' → t.label = t'.label → t = t') (hp : c.Has p)
    (hq : c.Has q) (h : p.1 = q.1) : p.2 = q.2 := by
  obtain ⟨a, t, ha, ht, rfl⟩ := hp
  obtain ⟨b, t', hb, ht', rfl⟩ := hq
  obtain ⟨hcore, hlabel⟩ := core_of_label ha hb ht ht' h
  rw [rowOf, rowOf, hcore, htail t t' ht ht' hlabel]

theorem head_begins (h : c.Has row) : c.head <+: row.1.toList := by
  obtain ⟨a, t, ha, _, rfl⟩ := h
  rw [c.toList_label ha]
  exact FieldCodes.head_begins (c.fits a ha)

end Coding

/-- A text that is written in columns ends in the value of the last one. -/
theorem exists_ending {columns : List (Column Char)} {values : List Text} (hne : columns ≠ [])
    (h : Fits columns values) : ∃ front, ∃ e ∈ endings columns, render columns values = front ++ e := by
  induction h with
  | nil => exact absurd rfl hne
  | @cons c v columns values hv hrest ih =>
      cases hrest with
      | nil =>
          refine ⟨[], c.text ++ v, List.mem_map_of_mem hv, ?_⟩
          exact congrArg (c.text ++ ·) (List.append_nil v)
      | @cons c' v' columns values hv' hrest =>
          obtain ⟨front, e, he, hrender⟩ := ih (List.cons_ne_nil c' columns)
          refine ⟨c.text ++ (v ++ front), e, he, ?_⟩
          rw [render, hrender, List.append_assoc, List.append_assoc]

theorem Coding.not_hashed {β : Type} {c : Coding β} {row : Row} (hne : c.columns ≠ [])
    (htail : ∀ t, c.tail t → t.Companion ∨ t.VoiceCompanion) (h : c.Has row) : ¬ Hashed row.1 := by
  obtain ⟨a, t, ha, ht, rfl⟩ := h
  rw [Hashed, c.toList_label ha]
  rcases Tail.isDigest_label (htail t ht) with rfl | ⟨hmark, hdigest⟩
  · obtain ⟨front, e, he, hrender⟩ := exists_ending hne (c.fits a ha)
    obtain ⟨hmark, hdigest⟩ := c.ending e he
    have hlabel : Tail.core.label.toList = [] := by decide
    rw [hlabel, List.append_nil, hrender, lastPart_append front hmark, hdigest]
    exact Bool.false_ne_true
  · rw [lastPart_append _ hmark, hdigest]
    exact Bool.false_ne_true

end Blockchecks.FamilyCodes
