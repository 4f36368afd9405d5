import Blockchecks.Toml
import Mathlib.Data.Nat.Digits.Defs

namespace Blockchecks.Toml

section writing

def escapeChar (c : Char) : List Char := if c = '\\' ∨ c = '"' then ['\\', c] else [c]

/-- A string in quotes, in which only the quote and the backslash are escaped. -/
def quote (s : String) : List Char := '"' :: (s.toList.flatMap escapeChar ++ ['"'])

def writeItems : List String → List Char
  | [] => []
  | [s] => quote s
  | s :: items => quote s ++ ", ".toList ++ writeItems items

def Leaf.write : Leaf → List Char
  | .bool b => if b then "true".toList else "false".toList
  | .int n => (toString n).toList
  | .text s => quote s
  | .texts items => '[' :: (writeItems items ++ [']'])

/-- A line as it is written. -/
inductive Line where
  | blank
  | comment (text : List Char)
  | header (name : String)
  | element (name : String)
  | entry (key : String) (value : Leaf)

def Line.write : Line → List Char
  | .blank => []
  | .comment text => '#' :: text
  | .header name => '[' :: (name.toList ++ [']'])
  | .element name => "[[".toList ++ name.toList ++ "]]".toList
  | .entry key value => key.toList ++ " = ".toList ++ value.write

def Line.says : Line → Statement
  | .blank => .blank
  | .comment _ => .blank
  | .header name => .header name
  | .element name => .element name
  | .entry key value => .entry key value

/-- The lines of a table, without its name. -/
def entries (table : Table) : List Line := table.map (fun e => .entry e.1 e.2)

/-- The strings of a value. -/
def Leaf.strings : Leaf → List String
  | .text s => [s]
  | .texts items => items
  | _ => []

/-- A string that is written without harm. -/
def Plain (s : String) : Prop := ∀ c ∈ s.toList, control c = false

instance (s : String) : Decidable (Plain s) :=
  decidable_of_iff (s.toList.all (fun c => control c == false) = true) (by simp [Plain])

/-- A name that stands without quotes. -/
def Bare (name : String) : Prop := name ≠ "" ∧ ∀ c ∈ name.toList, wordChar c = true ∧ c ≠ '+'

instance (name : String) : Decidable (Bare name) :=
  decidable_of_iff (name ≠ "" ∧ name.toList.all (fun c => wordChar c && c != '+') = true) (by simp [Bare])

/-- The names of a line are bare, and a comment has no control character. -/
def Line.Named : Line → Prop
  | .blank => True
  | .comment text => ∀ c ∈ text, control c = false
  | .header name => Bare name
  | .element name => Bare name
  | .entry key _ => Bare key

def Line.strings : Line → List String
  | .entry _ value => value.strings
  | _ => []

end writing

section running

variable {mode : Mode} {s t : List Char} {c : Char} {tokens : List Token} {w : List Char}

theorem run_append (mode : Mode) (s t : List Char) :
    run mode (s ++ t) = (run mode s).bind fun next => (run next.1 t).map fun last => (last.1, next.2 ++ last.2) := by
  induction s generalizing mode with
  | nil =>
      rw [List.nil_append, run, Option.bind_some]
      cases run mode t with
      | none => rfl
      | some last => rfl
  | cons c s ih =>
      rw [List.cons_append, run, run, Option.bind_assoc]
      cases step mode c with
      | none => rfl
      | some next =>
          rw [Option.bind_some, Option.bind_some, ih]
          cases run next.1 s with
          | none => rfl
          | some last =>
              rw [Option.bind_some, Option.map_some, Option.bind_some]
              cases run last.1 t with
              | none => rfl
              | some final =>
                  rw [Option.map_some, Option.map_some, Option.map_some, List.append_assoc]

/-- Two parts of a line, one after the other. -/
theorem run_trans {middle last : Mode} {first second : List Token} (hs : run mode s = some (middle, first))
    (ht : run middle t = some (last, second)) : run mode (s ++ t) = some (last, first ++ second) := by
  rw [run_append, hs, Option.bind_some, ht, Option.map_some]

theorem run_fails (hs : run mode s = some (.text w, tokens)) (ht : run (.text w) t = none) : run mode (s ++ t) = none := by
  rw [run_append, hs, Option.bind_some, ht, Option.map_none]

theorem run_word (hw : ∀ c ∈ s, wordChar c = true) (w : List Char) :
    run (.word w) s = some (.word (w ++ s), []) := by
  induction s generalizing w with
  | nil => rw [run, List.append_nil]
  | cons c s ih =>
      rw [run, step, if_pos (hw c List.mem_cons_self), Option.bind_some,
        ih (fun d hd => hw d (List.mem_cons_of_mem c hd)), List.append_assoc]
      rfl

theorem start_wordChar (h : wordChar c = true) : start c = some (.word [c], []) := by
  have hne : ∀ d : Char, wordChar d = false → c ≠ d := by
    rintro d hd rfl
    rw [h] at hd
    exact Bool.noConfusion hd
  rw [start, if_neg (not_or.mpr ⟨hne ' ' (by decide), hne '\t' (by decide)⟩), if_neg (hne '"' (by decide)),
    if_neg (hne '#' (by decide)), if_neg (hne '=' (by decide)), if_neg (hne ',' (by decide)),
    if_neg (hne '[' (by decide)), if_neg (hne ']' (by decide)), if_pos h]

theorem run_between_word (hne : s ≠ []) (hw : ∀ c ∈ s, wordChar c = true) :
    run .between s = some (.word s, []) := by
  cases s with
  | nil => exact absurd rfl hne
  | cons c s =>
      rw [run, step, start_wordChar (hw c List.mem_cons_self), Option.bind_some,
        run_word (fun d hd => hw d (List.mem_cons_of_mem c hd))]
      rfl

theorem step_text (hc : control c = false) : run (.text w) (escapeChar c) = some (.text (w ++ [c]), []) := by
  rw [escapeChar]
  by_cases hesc : c = '\\' ∨ c = '"'
  · rw [if_pos hesc]
    rcases hesc with rfl | rfl
    · rfl
    · rfl
  · obtain ⟨hback, hquote⟩ := not_or.mp hesc
    rw [if_neg hesc, run, step, if_neg hquote, if_neg hback, hc]
    rfl

/-- Within a string, text without control characters is read as it was written. -/
theorem run_text (h : ∀ c ∈ s, control c = false) (w : List Char) :
    run (.text w) (s.flatMap escapeChar) = some (.text (w ++ s), []) := by
  induction s generalizing w with
  | nil => rw [List.flatMap_nil, run, List.append_nil]
  | cons c s ih =>
      rw [List.flatMap_cons, run_trans (step_text (h c List.mem_cons_self))
        (ih (fun d hd => h d (List.mem_cons_of_mem c hd)) (w ++ [c])), List.append_assoc]
      rfl

theorem run_quote {s : String} (h : Plain s) : run .between (quote s) = some (.between, [.text s.toList]) := by
  have htext : run (.text []) (s.toList.flatMap escapeChar) = some (.text s.toList, []) := run_text h []
  have hopen : run .between ['"'] = some (.text [], []) := rfl
  have hclose : run (.text s.toList) ['"'] = some (.between, [.text s.toList]) := rfl
  exact run_trans hopen (run_trans htext hclose)

/-- A control character within a string makes the line wrong, whatever follows. -/
theorem run_control (hc : control c = true) (w t : List Char) : run (.text w) (c :: t) = none := by
  have hquote : c ≠ '"' := by
    rintro rfl
    exact absurd hc (by decide)
  have hback : c ≠ '\\' := by
    rintro rfl
    exact absurd hc (by decide)
  rw [run, step, if_neg hquote, if_neg hback, if_pos hc]
  rfl

end running

section reading

variable {name key : String} {items : List String} {n : Int} {value : Leaf} {line : Line}

def itemTokens : List String → List Token
  | [] => []
  | [s] => [.text s.toList]
  | s :: items => .text s.toList :: .comma :: itemTokens items

theorem run_items (h : ∀ s ∈ items, Plain s) :
    run .between (writeItems items) = some (.between, itemTokens items) := by
  fun_induction writeItems items with
  | case1 => rfl
  | case2 s => exact run_quote (h s List.mem_cons_self)
  | case3 s items hne ih =>
      have hcomma : run .between ", ".toList = some (.between, [.comma]) := by decide
      have hfirst := run_trans (run_quote (h s List.mem_cons_self)) hcomma
      rw [run_trans hfirst (ih (fun t ht => h t (List.mem_cons_of_mem s ht))), itemTokens]
      · rfl
      · exact hne

theorem arrayItems_itemTokens (items : List String) : arrayItems (itemTokens items ++ [.closing]) = some items := by
  fun_induction itemTokens items with
  | case1 => rfl
  | case2 s => exact congrArg (fun t => some [t]) String.ofList_toList
  | case3 s items hne ih =>
      rw [List.cons_append, List.cons_append, arrayItems, ih, Option.map_some, String.ofList_toList]

theorem natural_repr (n : Nat) : natural (Nat.repr n).toList = some n := by
  have hvalue : Nat.ofDigitChars 10 (Nat.repr n).toList 0 = n := by
    rw [Nat.toList_repr, Nat.ofDigitChars_ten_toDigits]
  rw [natural, hvalue]
  exact if_pos rfl

theorem isDigit_repr {n : Nat} {c : Char} (h : c ∈ (Nat.repr n).toList) : c.isDigit = true :=
  Nat.isDigit_of_mem_toDigits (by decide) (by decide) (Nat.toList_repr ▸ h)

theorem integer_digits {digits : List Char} (h : ∀ c ∈ digits, c.isDigit = true) :
    integer digits = (natural digits).map (fun n => (n : Int)) := by
  rw [integer.eq_def]
  split
  · exact absurd (h '-' List.mem_cons_self) (by decide)
  · exact absurd (h '+' List.mem_cons_self) (by decide)
  · rfl

theorem integer_toString (n : Int) : integer (toString n).toList = some n := by
  cases n with
  | ofNat m =>
      have hdigits : (toString (Int.ofNat m)).toList = (Nat.repr m).toList := rfl
      rw [hdigits, integer_digits (fun c hc => isDigit_repr hc), natural_repr]
      rfl
  | negSucc m =>
      have hdigits : (toString (Int.negSucc m)).toList = '-' :: (Nat.repr (m + 1)).toList := String.toList_append
      rw [hdigits, integer, natural_repr]
      rfl

theorem wordChar_of_isDigit {c : Char} (h : c.isDigit = true) : wordChar c = true := by
  rw [wordChar, Char.isAlphanum, h, Bool.or_true]
  rfl

theorem toString_wordChar (n : Int) : ∀ c ∈ (toString n).toList, wordChar c = true := by
  intro c hc
  cases n with
  | ofNat m => exact wordChar_of_isDigit (isDigit_repr (n := m) hc)
  | negSucc m =>
      have hdigits : (toString (Int.negSucc m)).toList = '-' :: (Nat.repr (m + 1)).toList := String.toList_append
      rw [hdigits] at hc
      rcases List.mem_cons.mp hc with rfl | hc
      · rfl
      · exact wordChar_of_isDigit (isDigit_repr hc)

theorem scalar_toString (n : Int) : scalar (toString n).toList = some (.int n) := by
  have hother : ∀ text : List Char, integer text = none → (toString n).toList ≠ text := by
    rintro text hnone rfl
    rw [integer_toString] at hnone
    exact absurd hnone (Option.some_ne_none n)
  rw [scalar, if_neg (hother _ (by decide)), if_neg (hother _ (by decide)), integer_toString]
  rfl

theorem toString_ne_nil (n : Int) : (toString n).toList ≠ [] := by
  intro h
  have hempty : integer [] = none := by decide
  have hint := integer_toString n
  rw [h, hempty] at hint
  exact absurd hint.symm (Option.some_ne_none n)

/-- Where a value was written, a value is read. -/
theorem leaf_write (h : ∀ s ∈ value.strings, Plain s) : ∃ mode tokens tail,
    run .between value.write = some (mode, tokens) ∧ finish mode = some tail ∧
      leaf (tokens ++ tail) = some value := by
  cases value with
  | bool b =>
      cases b with
      | false => exact ⟨_, _, _, rfl, rfl, by decide⟩
      | true => exact ⟨_, _, _, rfl, rfl, by decide⟩
  | int n =>
      refine ⟨_, _, _, run_between_word (toString_ne_nil n) (toString_wordChar n), rfl, ?_⟩
      exact scalar_toString n
  | text s =>
      refine ⟨_, _, _, run_quote (h s List.mem_cons_self), rfl, ?_⟩
      exact congrArg (fun t => some (Leaf.text t)) String.ofList_toList
  | texts items =>
      have hopen : run .between ['['] = some (.between, [.opening]) := rfl
      have hclose : run .between [']'] = some (.between, [.closing]) := rfl
      refine ⟨_, _, _, run_trans hopen (run_trans (run_items h) hclose), rfl, ?_⟩
      rw [List.append_nil, List.singleton_append, leaf, arrayItems_itemTokens]
      · rfl

theorem bareKey_of_bare (h : Bare name) : bareKey name.toList = true :=
  List.all_eq_true.mpr fun c hc => bne_iff_ne.mpr (h.2 c hc).2

theorem run_bare (h : Bare name) : run .between name.toList = some (.word name.toList, []) :=
  run_between_word (fun hnil => h.1 (String.toList_injective hnil)) (fun c hc => (h.2 c hc).1)

theorem run_key (h : Bare key) :
    run .between (key.toList ++ " = ".toList) = some (.between, [.word key.toList, .equals]) := by
  have hequals : run (.word key.toList) " = ".toList = some (.between, [.word key.toList, .equals]) := rfl
  exact run_trans (run_bare h) hequals

theorem run_comment {text : List Char} (h : ∀ c ∈ text, control c = false) :
    run .comment text = some (.comment, []) := by
  induction text with
  | nil => rfl
  | cons c text ih =>
      rw [run, step, if_neg (by rw [h c List.mem_cons_self]; exact Bool.false_ne_true), Option.bind_some,
        ih (fun d hd => h d (List.mem_cons_of_mem c hd))]
      rfl

/-- A line with bare names and plain strings is read as it was written. -/
theorem statement_write (hnamed : line.Named) (h : ∀ s ∈ line.strings, Plain s) :
    statement line.write = some line.says := by
  rw [statement, lex]
  cases line with
  | blank => rfl
  | comment text =>
      have hopen : run .between ['#'] = some (.comment, []) := rfl
      have hrun : run .between (Line.comment text).write = _ := run_trans hopen (run_comment hnamed)
      rw [hrun]
      rfl
  | header name =>
      have hopen : run .between ['['] = some (.between, [.opening]) := rfl
      have hclose : run (.word name.toList) [']'] = some (.between, [.word name.toList, .closing]) := rfl
      have hrun : run .between (Line.header name).write = _ := run_trans hopen (run_trans (run_bare hnamed) hclose)
      rw [hrun, Option.bind_some, finish, Option.map_some, Option.bind_some]
      change (if bareKey name.toList then _ else _) = _
      rw [if_pos (bareKey_of_bare hnamed), String.ofList_toList]
      rfl
  | element name =>
      have hopen : run .between "[[".toList = some (.between, [.opening, .opening]) := rfl
      have hclose : run (.word name.toList) "]]".toList = some (.between, [.word name.toList, .closing, .closing]) :=
        rfl
      have hrun : run .between (Line.element name).write = _ := run_trans (run_trans hopen (run_bare hnamed)) hclose
      rw [hrun, Option.bind_some, finish, Option.map_some, Option.bind_some]
      change (if bareKey name.toList then _ else _) = _
      rw [if_pos (bareKey_of_bare hnamed), String.ofList_toList]
      rfl
  | entry key value =>
      obtain ⟨mode, tokens, tail, hvalue, hfinish, hleaf⟩ := leaf_write h
      have hrun : run .between (Line.entry key value).write = _ := run_trans (run_key hnamed) hvalue
      rw [hrun, Option.bind_some, hfinish, Option.map_some, Option.bind_some, List.append_assoc]
      change (if bareKey key.toList then (leaf (tokens ++ tail)).map _ else _) = _
      rw [if_pos (bareKey_of_bare hnamed), hleaf, String.ofList_toList]
      rfl

end reading

section controls

variable {name key s : String} {items : List String} {value : Leaf} {line : Line} {a b text : List Char} {c : Char}

theorem plain_of_all (h : text.all (fun c => !control c) = true) : ∀ c ∈ text, control c = false := fun c hc =>
  Bool.not_eq_true' (control c) ▸ List.all_eq_true.mp h c hc

theorem wordChar_plain (h : wordChar c = true) : control c = false := by
  have hrange : 0x20 ≤ c.toNat ∧ c.toNat < 0x7F := by
    have hval : c.toNat = c.val.toNat := rfl
    have h₁ : 'A'.val.toNat = 65 := rfl
    have h₂ : 'Z'.val.toNat = 90 := rfl
    have h₃ : 'a'.val.toNat = 97 := rfl
    have h₄ : 'z'.val.toNat = 122 := rfl
    have h₅ : '0'.val.toNat = 48 := rfl
    have h₆ : '9'.val.toNat = 57 := rfl
    delta wordChar Char.isAlphanum Char.isAlpha Char.isUpper Char.isLower Char.isDigit at h
    simp only [Bool.or_eq_true, Bool.and_eq_true, decide_eq_true_eq, beq_iff_eq, UInt32.le_iff_toNat_le,
      ge_iff_le] at h
    rcases h with ((h | rfl) | rfl) | rfl
    · omega
    · decide
    · decide
    · decide
  have hlow : ¬ c.toNat < 0x20 := by omega
  have hhigh : ¬ c.toNat = 0x7F := by omega
  rw [control, decide_eq_false hlow, beq_eq_false_iff_ne.mpr hhigh]
  rfl

theorem escapeChar_plain (hc : control c = false) : ∀ d ∈ escapeChar c, control d = false := by
  rw [escapeChar]
  split_ifs with hesc
  · exact List.forall_mem_cons.mpr ⟨by decide, List.forall_mem_singleton.mpr hc⟩
  · exact List.forall_mem_singleton.mpr hc

theorem text_plain (h : ∀ c ∈ text, control c = false) : ∀ d ∈ text.flatMap escapeChar, control d = false := by
  intro d hd
  obtain ⟨c, hc, hd⟩ := List.mem_flatMap.mp hd
  exact escapeChar_plain (h c hc) d hd

theorem quote_plain (h : Plain s) : ∀ c ∈ quote s, control c = false :=
  List.forall_mem_cons.mpr ⟨by decide, List.forall_mem_append.mpr
    ⟨text_plain h, List.forall_mem_singleton.mpr (by decide)⟩⟩

theorem items_plain (h : ∀ s ∈ items, Plain s) : ∀ c ∈ writeItems items, control c = false := by
  fun_induction writeItems items with
  | case1 => exact fun c hc => absurd hc List.not_mem_nil
  | case2 s => exact quote_plain (h s List.mem_cons_self)
  | case3 s items _ ih =>
      have hcomma : ∀ c ∈ [',', ' '], control c = false := plain_of_all (by decide)
      exact List.forall_mem_append.mpr ⟨List.forall_mem_append.mpr ⟨quote_plain (h s List.mem_cons_self), hcomma⟩,
        ih (fun t ht => h t (List.mem_cons_of_mem s ht))⟩

theorem leaf_plain (h : ∀ s ∈ value.strings, Plain s) : ∀ c ∈ value.write, control c = false := by
  cases value with
  | bool b =>
      cases b with
      | false => exact plain_of_all (by decide)
      | true => exact plain_of_all (by decide)
  | int n => exact fun c hc => wordChar_plain (toString_wordChar n c hc)
  | text s => exact quote_plain (h s List.mem_cons_self)
  | texts items =>
      exact List.forall_mem_cons.mpr ⟨by decide, List.forall_mem_append.mpr
        ⟨items_plain h, List.forall_mem_singleton.mpr (by decide)⟩⟩

theorem bare_plain (h : Bare name) : ∀ c ∈ name.toList, control c = false := fun c hc => wordChar_plain (h.2 c hc).1

theorem key_plain (h : Bare key) : ∀ c ∈ key.toList ++ " = ".toList, control c = false :=
  List.forall_mem_append.mpr ⟨bare_plain h, plain_of_all (by decide)⟩

/-- What is written of bare names and plain strings stays on its line. -/
theorem line_plain (hnamed : line.Named) (h : ∀ s ∈ line.strings, Plain s) : ∀ c ∈ line.write, control c = false := by
  cases line with
  | blank => exact fun c hc => absurd hc List.not_mem_nil
  | comment text => exact List.forall_mem_cons.mpr ⟨by decide, hnamed⟩
  | header name =>
      exact List.forall_mem_cons.mpr ⟨by decide, List.forall_mem_append.mpr
        ⟨bare_plain hnamed, List.forall_mem_singleton.mpr (by decide)⟩⟩
  | element name =>
      exact List.forall_mem_append.mpr ⟨List.forall_mem_append.mpr
        ⟨plain_of_all (by decide), bare_plain hnamed⟩, plain_of_all (by decide)⟩
  | entry key value => exact List.forall_mem_append.mpr ⟨key_plain hnamed, leaf_plain h⟩

/-- A control character stands within a string, and none before it. -/
def Breaks (text : List Char) : Prop :=
  ∃ before tokens w c after, text = before ++ c :: after ∧ run .between before = some (.text w, tokens) ∧
    (∀ d ∈ before, control d = false) ∧ control c = true

theorem Breaks.append_right (h : Breaks a) (b : List Char) : Breaks (a ++ b) := by
  obtain ⟨before, tokens, w, c, after, rfl, hrun, hbefore, hc⟩ := h
  refine ⟨before, tokens, w, c, after ++ b, ?_, hrun, hbefore, hc⟩
  rw [List.append_assoc, List.cons_append]

theorem Breaks.append_left {tokens : List Token} (h : Breaks b) (hrun : run .between a = some (.between, tokens))
    (ha : ∀ d ∈ a, control d = false) : Breaks (a ++ b) := by
  obtain ⟨before, tokens', w, c, after, rfl, hrun', hbefore, hc⟩ := h
  refine ⟨a ++ before, _, w, c, after, ?_, run_trans hrun hrun', List.forall_mem_append.mpr ⟨ha, hbefore⟩, hc⟩
  rw [List.append_assoc]

theorem first_control (h : ¬ ∀ c ∈ text, control c = false) :
    ∃ before c after, text = before ++ c :: after ∧ (∀ d ∈ before, control d = false) ∧ control c = true := by
  induction text with
  | nil => exact absurd (fun c hc => absurd hc List.not_mem_nil) h
  | cons c text ih =>
      by_cases hc : control c = true
      · exact ⟨[], c, text, rfl, fun d hd => absurd hd List.not_mem_nil, hc⟩
      · have hc' : control c = false := Bool.eq_false_iff.mpr hc
        obtain ⟨before, d, after, rfl, hbefore, hd⟩ := ih (fun htext => h (List.forall_mem_cons.mpr ⟨hc', htext⟩))
        exact ⟨c :: before, d, after, rfl, List.forall_mem_cons.mpr ⟨hc', hbefore⟩, hd⟩

theorem breaks_quote (h : ¬ Plain s) : Breaks (quote s) := by
  obtain ⟨before, c, after, hs, hbefore, hc⟩ := first_control h
  have hopen : run .between ['"'] = some (.text [], []) := rfl
  have hesc : escapeChar c = [c] := by
    apply if_neg
    rintro (rfl | rfl)
    · exact absurd hc (by decide)
    · exact absurd hc (by decide)
  refine ⟨'"' :: before.flatMap escapeChar, _, _, c, after.flatMap escapeChar ++ ['"'], ?_,
    run_trans hopen (run_text hbefore []), List.forall_mem_cons.mpr ⟨by decide, text_plain hbefore⟩, hc⟩
  rw [quote, hs, List.flatMap_append, List.flatMap_cons, hesc, List.cons_append, List.append_assoc]
  rfl

theorem breaks_items (h : ¬ ∀ s ∈ items, Plain s) : Breaks (writeItems items) := by
  fun_induction writeItems items with
  | case1 => exact absurd (fun s hs => absurd hs List.not_mem_nil) h
  | case2 s => exact breaks_quote (fun hs => h (List.forall_mem_singleton.mpr hs))
  | case3 s items _ ih =>
      by_cases hs : Plain s
      · have hcomma : run .between ", ".toList = some (.between, [.comma]) := by decide
        have hplain : ∀ c ∈ [',', ' '], control c = false := plain_of_all (by decide)
        have hrest := ih (fun hitems => h (List.forall_mem_cons.mpr ⟨hs, hitems⟩))
        exact hrest.append_left (run_trans (run_quote hs) hcomma)
          (List.forall_mem_append.mpr ⟨quote_plain hs, hplain⟩)
      · exact ((breaks_quote hs).append_right _).append_right _

theorem breaks_leaf (h : ¬ ∀ s ∈ value.strings, Plain s) : Breaks value.write := by
  cases value with
  | bool b => exact absurd (fun s hs => absurd hs List.not_mem_nil) h
  | int n => exact absurd (fun s hs => absurd hs List.not_mem_nil) h
  | text s => exact breaks_quote (fun hs => h (List.forall_mem_singleton.mpr hs))
  | texts items =>
      have hopen : run .between ['['] = some (.between, [.opening]) := rfl
      have hplain : ∀ c ∈ ['['], control c = false := plain_of_all (by decide)
      exact ((breaks_items h).append_right _).append_left hopen hplain

theorem breaks_line (hnamed : line.Named) (h : ¬ ∀ s ∈ line.strings, Plain s) : Breaks line.write := by
  cases line with
  | entry key value => exact (breaks_leaf h).append_left (run_key hnamed) (key_plain hnamed)
  | blank => exact absurd (fun s hs => absurd hs List.not_mem_nil) h
  | comment text => exact absurd (fun s hs => absurd hs List.not_mem_nil) h
  | header name => exact absurd (fun s hs => absurd hs List.not_mem_nil) h
  | element name => exact absurd (fun s hs => absurd hs List.not_mem_nil) h

variable {p : Char → Bool}

theorem takeWhile_mem_splitOnP (ha : ∀ c ∈ a, p c = false) (b : List Char) :
    a ++ b.takeWhile (fun c => !p c) ∈ (a ++ b).splitOnP p := by
  induction b generalizing a with
  | nil =>
      rw [List.takeWhile_nil, List.append_nil, List.splitOnP_eq_singleton ha]
      exact List.mem_cons_self
  | cons c b ih =>
      cases hc : p c with
      | true =>
          rw [List.takeWhile_cons_of_neg (by simp [hc]), List.append_nil,
            List.splitOnP_append_cons_of_forall_mem ha c hc]
          exact List.mem_cons_self
      | false =>
          have hmore := ih (a := a ++ [c]) (List.forall_mem_append.mpr ⟨ha, List.forall_mem_singleton.mpr hc⟩)
          rw [List.takeWhile_cons_of_pos (by simp [hc])]
          rw [List.append_assoc, List.append_assoc] at hmore
          exact hmore

/-- Cut at control characters, such a text has a piece that says nothing. -/
theorem statement_breaks (h : Breaks text) (hp : ∀ c, p c = true → control c = true) :
    ∃ piece ∈ text.splitOnP p, statement piece = none := by
  obtain ⟨before, tokens, w, c, after, rfl, hrun, hbefore, hc⟩ := h
  have hsep : ∀ d ∈ before, p d = false := by
    intro d hd
    by_contra hpd
    have hcontrol := hp d (Bool.not_eq_false _ ▸ hpd)
    rw [hbefore d hd] at hcontrol
    exact Bool.false_ne_true hcontrol
  refine ⟨_, takeWhile_mem_splitOnP hsep (c :: after), ?_⟩
  rw [statement, lex]
  cases hpc : p c with
  | true =>
      rw [List.takeWhile_cons_of_neg (by simp [hpc]), List.append_nil, hrun]
      rfl
  | false =>
      rw [List.takeWhile_cons_of_pos (by simp [hpc]), run_fails hrun (run_control hc w _)]
      rfl

end controls

end Blockchecks.Toml
