import Mathlib.Data.List.Basic

namespace Blockchecks.LineSplit

section onto

variable {α : Type} {stop : α → Bool}

/-- Put a character in front of the first line. -/
def extend (c : α) : List (List α) → List (List α)
  | [] => [[c]]
  | part :: parts => (c :: part) :: parts

/-- Put a character in front of the lines of what follows it. -/
def onto (stop : α → Bool) (c : α) (parts : List (List α)) : List (List α) :=
  if stop c then [] :: parts else extend c parts

theorem onto_stop {c : α} (h : stop c = true) (parts : List (List α)) : onto stop c parts = [] :: parts :=
  if_pos h

theorem onto_open {c : α} (h : ¬ stop c = true) (parts : List (List α)) :
    onto stop c parts = extend c parts :=
  if_neg h

theorem length_extend (c : α) (parts : List (List α)) : (extend c parts).length = max 1 parts.length := by
  cases parts with
  | nil => rfl
  | cons part parts =>
      simp only [extend, List.length_cons]
      omega

theorem length_onto_stop {c : α} (h : stop c = true) (parts : List (List α)) :
    (onto stop c parts).length = parts.length + 1 := by
  rw [onto_stop h, List.length_cons]

theorem length_onto_open {c : α} (h : ¬ stop c = true) (parts : List (List α)) :
    (onto stop c parts).length = max 1 parts.length := by
  rw [onto_open h, length_extend]

theorem length_onto_pos (c : α) (parts : List (List α)) : 0 < (onto stop c parts).length := by
  by_cases h : stop c = true
  · rw [length_onto_stop h]
    omega
  · rw [length_onto_open h]
    omega

theorem onto_append {c : α} {parts : List (List α)} (h : stop c = true ∨ parts ≠ []) (more : List (List α)) :
    onto stop c (parts ++ more) = onto stop c parts ++ more := by
  by_cases hc : stop c = true
  · rw [onto_stop hc, onto_stop hc, List.cons_append]
  · rw [onto_open hc, onto_open hc]
    cases parts with
    | nil => exact absurd rfl (h.resolve_left hc)
    | cons part parts => rfl

theorem flatten_extend (c : α) (parts : List (List α)) : (extend c parts).flatten = c :: parts.flatten := by
  cases parts with
  | nil => rfl
  | cons part parts => rfl

theorem flatten_onto (c : α) (parts : List (List α)) :
    (onto stop c parts).flatten = [c].filter (fun c => !stop c) ++ parts.flatten := by
  by_cases hc : stop c = true
  · rw [onto_stop hc, List.flatten_cons, List.filter_cons_of_neg (by simp [hc])]
    rfl
  · rw [onto_open hc, flatten_extend, List.filter_cons_of_pos (by simp [hc])]
    rfl

theorem length_onto_mono (c : α) {parts more : List (List α)} (h : parts.length ≤ more.length) :
    (onto stop c parts).length ≤ (onto stop c more).length := by
  by_cases hs : stop c = true
  · rw [length_onto_stop hs, length_onto_stop hs]
    omega
  · rw [length_onto_open hs, length_onto_open hs]
    omega

theorem length_onto_lt (c : α) {parts more : List (List α)} {n : Nat} (hpos : 0 < parts.length)
    (h : parts.length < more.length + n) : (onto stop c parts).length < (onto stop c more).length + n := by
  by_cases hs : stop c = true
  · rw [length_onto_stop hs, length_onto_stop hs]
    omega
  · rw [length_onto_open hs, length_onto_open hs]
    omega

theorem length_le_onto (c : α) (parts : List (List α)) : parts.length ≤ (onto stop c parts).length := by
  by_cases hs : stop c = true
  · rw [length_onto_stop hs]
    omega
  · rw [length_onto_open hs]
    omega

end onto

section lines

variable {α : Type} [DecidableEq α]

/-- The lines of a text. A character that stops a line belongs to none, and the pair of
`cr` and `lf` stops one line only. -/
def lines (stop : α → Bool) (cr lf : α) : List α → List (List α)
  | [] => []
  | [c] => onto stop c []
  | c :: d :: text =>
      if c = cr ∧ d = lf then [] :: lines stop cr lf text else onto stop c (lines stop cr lf (d :: text))

/-- A text may be cut between two parts: the first ends a line, and no pair is torn apart. -/
def Cut (stop : α → Bool) (cr lf : α) (x y : List α) : Prop :=
  (∃ c, x.getLast? = some c ∧ stop c = true) ∧ ¬ (x.getLast? = some cr ∧ y.head? = some lf)

/-- What stops lines: both characters of the pair, and they differ. -/
structure Stops (stop : α → Bool) (cr lf : α) : Prop where
  first : stop cr = true
  second : stop lf = true
  distinct : cr ≠ lf

variable {stop : α → Bool} {cr lf c d : α} {text x y : List α}

theorem lines_cons (h : ¬ (c = cr ∧ text.head? = some lf)) :
    lines stop cr lf (c :: text) = onto stop c (lines stop cr lf text) := by
  cases text with
  | nil => rfl
  | cons d text =>
      rw [lines, if_neg]
      rintro ⟨hc, hd⟩
      exact h ⟨hc, congrArg some hd⟩

theorem lines_pair (text : List α) : lines stop cr lf (cr :: lf :: text) = [] :: lines stop cr lf text := by
  rw [lines, if_pos ⟨rfl, rfl⟩]

/-- A text is empty, begins with a pair, or begins with a character that is none's first half. -/
theorem pair_induction (cr lf : α) {motive : List α → Prop} (nil : motive [])
    (pair : ∀ text, motive text → motive (cr :: lf :: text))
    (cons : ∀ c text, ¬ (c = cr ∧ text.head? = some lf) → motive text → motive (c :: text))
    (text : List α) : motive text := by
  fun_induction lines (fun _ => true) cr lf text with
  | case1 => exact nil
  | case2 c => exact cons c [] (fun h => absurd h.2 (by simp)) nil
  | case3 c d text h ih =>
      obtain ⟨rfl, rfl⟩ := h
      exact pair text ih
  | case4 c d text h ih => exact cons c (d :: text) (fun h' => h ⟨h'.1, Option.some.inj h'.2⟩) ih

theorem length_lines_pos (h : text ≠ []) : 0 < (lines stop cr lf text).length := by
  fun_cases lines stop cr lf text with
  | case1 => exact absurd rfl h
  | case2 c => exact length_onto_pos c _
  | case3 => exact Nat.succ_pos _
  | case4 c d text => exact length_onto_pos c _

theorem lines_ne_nil (h : text ≠ []) : lines stop cr lf text ≠ [] :=
  List.ne_nil_of_length_pos (length_lines_pos h)

/-- What stands in the lines is the text without what stops them. -/
theorem flatten_lines (hs : Stops stop cr lf) (text : List α) :
    (lines stop cr lf text).flatten = text.filter (fun c => !stop c) := by
  induction text using pair_induction cr lf with
  | nil => rfl
  | pair text ih =>
      rw [lines_pair, List.flatten_cons, ih, List.filter_cons_of_neg (by simp [hs.first]),
        List.filter_cons_of_neg (by simp [hs.second])]
      rfl
  | cons c text h ih =>
      rw [lines_cons h, flatten_onto, ih, ← List.filter_append]
      rfl

theorem length_lines_singleton (c : α) : (lines stop cr lf [c]).length = 1 := by
  rw [lines]
  by_cases hs : stop c = true
  · rw [length_onto_stop hs, List.length_nil]
  · rw [length_onto_open hs, List.length_nil]
    rfl

/-- Which character ends a text does not matter to the number of its lines. -/
theorem length_lines_concat_le (hc : c ≠ lf) (hd : d ≠ lf) (text : List α) :
    (lines stop cr lf (text ++ [c])).length ≤ (lines stop cr lf (text ++ [d])).length := by
  have hhead : ∀ {b e : α} {rest : List α}, ¬ (b = cr ∧ rest.head? = some lf) → e ≠ lf →
      ¬ (b = cr ∧ (rest ++ [e]).head? = some lf) := by
    intro b e rest h he hboth
    cases rest with
    | nil => exact he (Option.some.inj hboth.2)
    | cons a rest => exact h hboth
  induction text using pair_induction cr lf with
  | nil =>
      have hone : (lines stop cr lf [c]).length = (lines stop cr lf [d]).length :=
        (length_lines_singleton c).trans (length_lines_singleton d).symm
      exact Nat.le_of_eq hone
  | pair text ih =>
      rw [List.cons_append, List.cons_append, List.cons_append, List.cons_append, lines_pair, lines_pair]
      exact Nat.succ_le_succ ih
  | cons b text h ih =>
      rw [List.cons_append, List.cons_append, lines_cons (hhead h hc), lines_cons (hhead h hd)]
      exact length_onto_mono b ih

/-- A good cut leaves the lines as they are. -/
theorem lines_append (h : Cut stop cr lf x y) :
    lines stop cr lf (x ++ y) = lines stop cr lf x ++ lines stop cr lf y := by
  obtain ⟨⟨e, he, hs⟩, hpair⟩ := h
  induction x using pair_induction cr lf with
  | nil => exact absurd he (by simp)
  | pair text ih =>
      rw [List.cons_append, List.cons_append, lines_pair, lines_pair]
      cases text with
      | nil => rfl
      | cons b text =>
          rw [List.getLast?_cons_cons, List.getLast?_cons_cons] at he hpair
          rw [ih hpair he]
          rfl
  | cons c text h ih =>
      cases text with
      | nil =>
          obtain rfl : c = e := Option.some.inj he
          have hcut : ¬ (c = cr ∧ y.head? = some lf) := fun h' => hpair ⟨congrArg some h'.1, h'.2⟩
          rw [List.singleton_append, lines_cons hcut, lines_cons h, onto_stop hs, onto_stop hs]
          rfl
      | cons b text =>
          rw [List.getLast?_cons_cons] at he hpair
          have hnext : ¬ (c = cr ∧ (b :: text ++ y).head? = some lf) := h
          rw [List.cons_append, lines_cons hnext, lines_cons h, ih hpair he,
            onto_append (Or.inr (lines_ne_nil (List.cons_ne_nil _ _)))]

/-- Every other cut makes two lines of one. -/
theorem length_lines_append_lt (hs : Stops stop cr lf) (hx : x ≠ []) (hy : y ≠ []) (h : ¬ Cut stop cr lf x y) :
    (lines stop cr lf (x ++ y)).length < (lines stop cr lf x).length + (lines stop cr lf y).length := by
  induction x using pair_induction cr lf with
  | nil => exact absurd rfl hx
  | pair text ih =>
      rw [List.cons_append, List.cons_append, lines_pair, lines_pair, List.length_cons, List.length_cons]
      cases text with
      | nil => exact absurd ⟨⟨lf, rfl, hs.second⟩, fun hp => hs.distinct (Option.some.inj hp.1).symm⟩ h
      | cons b text =>
          have hrest := ih (List.cons_ne_nil _ _) h
          omega
  | cons c text hc ih =>
      cases text with
      | nil =>
          have hone : (lines stop cr lf [c]).length = 1 := length_lines_singleton c
          by_cases hp : c = cr ∧ y.head? = some lf
          · obtain ⟨rfl, hhead⟩ := hp
            obtain ⟨rest, rfl⟩ := List.head?_eq_some_iff.mp hhead
            rw [List.singleton_append, lines_pair, hone,
              lines_cons (fun h' => hs.distinct h'.1.symm), length_onto_stop hs.second, List.length_cons]
            omega
          · have hopen : ¬ stop c = true :=
              fun hstop => h ⟨⟨c, rfl, hstop⟩, fun h' => hp ⟨Option.some.inj h'.1, h'.2⟩⟩
            have hpos : 0 < (lines stop cr lf y).length := length_lines_pos hy
            rw [List.singleton_append, lines_cons hp, length_onto_open hopen, hone]
            omega
      | cons b text =>
          have hrest := ih (List.cons_ne_nil _ _) h
          have hnext : ¬ (c = cr ∧ (b :: text ++ y).head? = some lf) := hc
          rw [List.cons_append, lines_cons hnext, lines_cons hc]
          exact length_onto_lt c (length_lines_pos (List.cons_ne_nil _ _)) hrest

theorem length_lines_append_le (hs : Stops stop cr lf) (x y : List α) :
    (lines stop cr lf (x ++ y)).length ≤ (lines stop cr lf x).length + (lines stop cr lf y).length := by
  by_cases hx : x = []
  · rw [hx, List.nil_append]
    exact Nat.le_add_left _ _
  · by_cases hy : y = []
    · rw [hy, List.append_nil]
      exact Nat.le_add_right _ _
    · by_cases h : Cut stop cr lf x y
      · have hsum := congrArg List.length (lines_append h)
        rw [List.length_append] at hsum
        exact Nat.le_of_eq hsum
      · exact Nat.le_of_lt (length_lines_append_lt hs hx hy h)

theorem length_lines_tail (hc : c ≠ cr) (text : List α) :
    (lines stop cr lf text).length ≤ (lines stop cr lf (c :: text)).length := by
  rw [lines_cons (fun h => hc h.1)]
  exact length_le_onto c _

theorem length_lines_replicate (hd : d ≠ cr) (n : Nat) (y : List α) :
    (lines stop cr lf y).length ≤ (lines stop cr lf (List.replicate n d ++ y)).length := by
  induction n with
  | zero => exact Nat.le_refl _
  | succ n ih => exact Nat.le_trans ih (length_lines_tail hd _)

/-- A text has no fewer lines when one of its characters is torn in two, and the second part
stands for none or several. -/
theorem length_lines_torn_le (hs : Stops stop cr lf) (hc : c ≠ lf) (hd : d ≠ lf) (hd' : d ≠ cr) (n : Nat)
    (x y : List α) :
    (lines stop cr lf (x ++ c :: y)).length ≤
      (lines stop cr lf (x ++ [d])).length + (lines stop cr lf (List.replicate n d ++ y)).length := by
  calc
    (lines stop cr lf (x ++ c :: y)).length = (lines stop cr lf ((x ++ [c]) ++ y)).length := by
      rw [List.append_assoc, List.singleton_append]
    _ ≤ (lines stop cr lf (x ++ [c])).length + (lines stop cr lf y).length := length_lines_append_le hs _ _
    _ ≤ _ := Nat.add_le_add (length_lines_concat_le hc hd x) (length_lines_replicate hd' n y)

/-- It has more if that character stops no line. -/
theorem length_lines_torn_lt (hs : Stops stop cr lf) (hc : ¬ stop c = true) (hd : d ≠ lf) (hd' : d ≠ cr) {n : Nat}
    (hn : List.replicate n d ++ y ≠ []) (x : List α) :
    (lines stop cr lf (x ++ c :: y)).length <
      (lines stop cr lf (x ++ [d])).length + (lines stop cr lf (List.replicate n d ++ y)).length := by
  have hclf : c ≠ lf := fun h => hc (h ▸ hs.second)
  have hhead : (lines stop cr lf (x ++ [c])).length ≤ (lines stop cr lf (x ++ [d])).length :=
    length_lines_concat_le hclf hd x
  by_cases hy : y = []
  · have hpos : 0 < (lines stop cr lf (List.replicate n d ++ y)).length := length_lines_pos hn
    rw [hy] at hpos ⊢
    omega
  · have hopen : ¬ Cut stop cr lf (x ++ [c]) y := by
      rintro ⟨⟨e, he, hstop⟩, -⟩
      rw [List.getLast?_concat] at he
      exact hc (Option.some.inj he ▸ hstop)
    have hjoin := length_lines_append_lt hs (by simp) hy hopen
    have hrest : (lines stop cr lf y).length ≤ _ := length_lines_replicate hd' n y
    rw [List.append_assoc, List.singleton_append] at hjoin
    omega

/-- If it stops one, the torn line has more in it. -/
theorem lines_torn_ne (hs : Stops stop cr lf) (hc : stop c = true) (hcr : c ≠ cr) (hclf : c ≠ lf)
    (hd : ¬ stop d = true) (x y : List α) (more : List (List α)) :
    lines stop cr lf (x ++ c :: y) ≠ lines stop cr lf (x ++ [d]) ++ more := by
  have hcut : Cut stop cr lf (x ++ [c]) y := by
    refine ⟨⟨c, List.getLast?_concat, hc⟩, ?_⟩
    rintro ⟨hlast, -⟩
    rw [List.getLast?_concat] at hlast
    exact hcr (Option.some.inj hlast)
  have hdlf : d ≠ lf := fun h => hd (h ▸ hs.second)
  have hlength : (lines stop cr lf (x ++ [c])).length = (lines stop cr lf (x ++ [d])).length :=
    Nat.le_antisymm (length_lines_concat_le hclf hdlf x) (length_lines_concat_le hdlf hclf x)
  intro h
  have hsplit : x ++ c :: y = (x ++ [c]) ++ y := by rw [List.append_assoc, List.singleton_append]
  rw [hsplit, lines_append hcut] at h
  have hflat := congrArg List.flatten (List.append_inj h hlength).1
  rw [flatten_lines hs, flatten_lines hs, List.filter_append, List.filter_append,
    List.filter_cons_of_neg (by simp [hc]), List.filter_cons_of_pos (by simp [hd])] at hflat
  exact absurd (congrArg List.length hflat) (by simp)

end lines

end Blockchecks.LineSplit
