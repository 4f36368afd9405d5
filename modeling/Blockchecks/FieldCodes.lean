import Mathlib.Data.List.Basic
import Mathlib.Data.List.DropRight

namespace Blockchecks.FieldCodes

variable {α : Type} {mark : α} {values : List (List α)} {v w rest tail : List α}

/-- What may follow a value: nothing, or a text that begins with the mark. -/
def Marked (mark : α) (rest : List α) : Prop := rest = [] ∨ ∃ tail, rest = mark :: tail

/-- No value goes on with the mark to another. -/
def Closed (mark : α) (values : List (List α)) : Prop :=
  ∀ v ∈ values, ∀ w ∈ values, ¬ v ++ [mark] <+: w

instance [DecidableEq α] (mark : α) (values : List (List α)) : Decidable (Closed mark values) :=
  inferInstanceAs (Decidable (∀ v ∈ values, ∀ w ∈ values, ¬ v ++ [mark] <+: w))

theorem marked_nil : Marked mark [] := Or.inl rfl

theorem marked_cons : Marked mark (mark :: rest) := Or.inr ⟨rest, rfl⟩

/-- A value that another begins with is that value. -/
theorem Closed.append_eq_nil (h : Closed mark values) (hv : v ∈ values) (hw : v ++ w ∈ values)
    (hrest : Marked mark (w ++ tail)) : w = [] := by
  cases w with
  | nil => rfl
  | cons c w =>
      rcases hrest with hnil | ⟨t, ht⟩
      · cases hnil
      · obtain ⟨rfl, _⟩ := List.cons.inj ht
        refine absurd ⟨w, ?_⟩ (h v hv _ hw)
        rw [List.append_assoc, List.singleton_append]

theorem Closed.cancel (h : Closed mark values) (hv : v ∈ values) (hw : w ∈ values)
    (hrest : Marked mark rest) (htail : Marked mark tail) (he : v ++ rest = w ++ tail) :
    v = w ∧ rest = tail := by
  rcases List.append_eq_append_iff.mp he with ⟨d, rfl, rfl⟩ | ⟨d, rfl, rfl⟩
  · obtain rfl := h.append_eq_nil hv hw hrest
    exact ⟨(List.append_nil v).symm, rfl⟩
  · obtain rfl := h.append_eq_nil hw hv htail
    exact ⟨List.append_nil w, rfl⟩

/-- A value that stands behind a fixed text. -/
structure Column (α : Type) where
  text : List α
  values : List (List α)

def render : List (Column α) → List (List α) → List α
  | f :: columns, v :: vs => f.text ++ (v ++ render columns vs)
  | _, _ => []

def Fits (columns : List (Column α)) (vs : List (List α)) : Prop :=
  List.Forall₂ (fun f v => v ∈ f.values) columns vs

/-- The letter that ends a value: the first one of the text behind it, or the
mark at the end. -/
def nextMark (mark : α) : List (Column α) → α
  | [] => mark
  | f :: _ => f.text.headD mark

def Separated (mark : α) : List (Column α) → Prop
  | [] => True
  | f :: columns => f.text ≠ [] ∧ Closed (nextMark mark columns) f.values ∧ Separated mark columns

instance decidableSeparated [DecidableEq α] (mark : α) :
    (columns : List (Column α)) → Decidable (Separated mark columns)
  | [] => isTrue trivial
  | _ :: columns =>
      have := decidableSeparated mark columns
      inferInstanceAs (Decidable (_ ∧ _ ∧ _))

variable {columns columns' : List (Column α)} {vs ws : List (List α)}

theorem marked_render (h : Separated mark columns) (hvs : Fits columns vs) (hrest : Marked mark rest) :
    Marked (nextMark mark columns) (render columns vs ++ rest) := by
  cases hvs with
  | nil => exact hrest
  | @cons _ v columns vs _ _ =>
      obtain ⟨c, text, htext⟩ := List.exists_cons_of_ne_nil h.1
      refine Or.inr ⟨text ++ (v ++ render columns vs) ++ rest, ?_⟩
      rw [render, nextMark, htext]
      rfl

/-- A text tells the values that it was written from. -/
theorem render_cancel (h : Separated mark columns) (hvs : Fits columns vs) (hws : Fits columns ws)
    (hrest : Marked mark rest) (htail : Marked mark tail)
    (he : render columns vs ++ rest = render columns ws ++ tail) : vs = ws ∧ rest = tail := by
  induction columns generalizing vs ws with
  | nil =>
      cases hvs
      cases hws
      exact ⟨rfl, he⟩
  | cons f columns ih =>
      cases hvs with
      | cons hv hvs =>
          cases hws with
          | cons hw hws =>
              simp only [render, List.append_assoc] at he
              obtain ⟨rfl, hnext⟩ := h.2.1.cancel hv hw (marked_render h.2.2 hvs hrest)
                (marked_render h.2.2 hws htail)
                (List.append_cancel_left he)
              obtain ⟨rfl, rfl⟩ := ih h.2.2 hvs hws hnext
              exact ⟨rfl, rfl⟩

/-- The text that the first value stands behind. -/
def head : List (Column α) → List α
  | [] => []
  | f :: _ => f.text

theorem head_begins (hvs : Fits columns vs) : head columns <+: render columns vs ++ rest := by
  cases hvs with
  | nil => exact List.nil_prefix
  | cons _ _ =>
      rw [head, render, List.append_assoc]
      exact List.prefix_append _ _

section lastPart

variable [DecidableEq α]

/-- What stands behind the last mark of a text. -/
def lastPart (mark : α) (text : List α) : List α := text.rtakeWhile (fun c => decide (c ≠ mark))

theorem lastPart_append (text : List α) (h : mark ∈ rest) :
    lastPart mark (text ++ rest) = lastPart mark rest := by
  rw [lastPart, lastPart, List.rtakeWhile, List.rtakeWhile, List.reverse_append, List.takeWhile_append,
    if_neg]
  intro hlen
  have hle : rest.reverse.takeWhile (fun c => decide (c ≠ mark)) <+: rest.reverse := List.takeWhile_prefix _
  have hall := hle.eq_of_length hlen
  rw [List.takeWhile_eq_self_iff] at hall
  exact of_decide_eq_true (hall mark (List.mem_reverse.mpr h)) rfl

theorem lastPart_cons (h : mark ∉ rest) : lastPart mark (mark :: rest) = rest := by
  rw [lastPart, List.rtakeWhile, List.reverse_cons, List.takeWhile_append_of_pos]
  · rw [List.takeWhile_cons_of_neg (by simp), List.append_nil, List.reverse_reverse]
  · intro c hc
    refine decide_eq_true ?_
    rintro rfl
    exact h (List.mem_reverse.mp hc)

end lastPart

end Blockchecks.FieldCodes
