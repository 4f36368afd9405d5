import Blockchecks.NfqwsConfig
import Blockchecks.StickyOptions
import Blockchecks.Escaping

namespace Blockchecks.ConfRun

open StrategyText LuaConf NfqwsConfig StickyOptions Escaping

inductive Setting where
  | payload
  | outRange
  | inRange
  deriving DecidableEq

abbrev Line (Core : Type) := Directive Setting (List Char) Core

abbrev Desync (Core : Type) := Instance Setting (List Char) Core

def value (line : List Char) (option : String) : Option (List Char) :=
  if startsWith line option then some (line.drop option.toList.length) else none

/-- A line of a conf as nfqws2 takes it, its text as it stands in the conf. -/
def directive (line : List Char) : Line (List Char) :=
  match value line "--payload=" with
  | some v => .set .payload v
  | none => match value line "--out-range=" with
    | some v => .set .outRange v
    | none => match value line "--in-range=" with
      | some v => .set .inRange v
      | none => match value line "--lua-desync=" with
        | some core => .use core
        | none => .other

def desyncs (lines : List String) : List (Desync (List Char)) :=
  instances (fun _ => none) (lines.map (fun line => directive line.toList))

/-- The instances that orchestrate leaves to scan_pick, and those it executes.
The parameter is the number that tonumber(inst.arg.strategy) gives. -/
def plan (lines : List String) : List (Desync (List Char)) :=
  ((desyncs lines).dropWhile (fun i => i.core ≠ "scan_pick".toList)).tail

def scanPick (strategyArg : List Char → Option Nat) (id : Nat) (plan : List (Desync (List Char))) :
    List (Desync (List Char)) :=
  plan.filter (fun i => decide (strategyArg i.core = some id))

def tag (n : Nat) : List Char := (":strategy=" ++ toString n).toList

/-- Equal up to the argument that build_bridge_conf adds. -/
def SameRun (n : Nat) : List (Desync (List Char)) → List (Desync (List Char)) → Prop :=
  List.Forall₂ (fun batch alone => batch.options = alone.options ∧
    (batch.core = alone.core ∨ batch.core = alone.core ++ tag n))

/-- A line of a strategy before it is written to a conf. -/
inductive Item where
  | cli (arg : List Char)
  | core (text : List Char)

def strategyItems (strategy : String) : List Item :=
  (split strategy.toList "\n").flatMap (fun rawLine =>
    let rawLine := strip rawLine
    if rawLine = [] then []
    else if startsWith rawLine "--" then (splitCliArgs rawLine).map .cli
    else [.core rawLine])

def desyncLine (core : List Char) : String := String.ofList ("--lua-desync=".toList ++ core)

def Item.alone : Item → String
  | .cli arg => String.ofList (sanitizeArgForConf arg)
  | .core text => desyncLine (sanitizeArgForConf text)

def Item.inBatch (n : Nat) : Item → String
  | .cli arg => String.ofList (sanitizeArgForConf arg)
  | .core text =>
      desyncLine (escapeConfLt (if contains text ":strategy=" then text else text ++ tag n))

theorem inlineLines_eq (strategy : String) :
    inlineLines strategy = (strategyItems strategy).map Item.alone := by
  rw [inlineLines, strategyItems, List.map_flatMap]
  congr 1
  funext rawLine
  dsimp only
  split
  · rfl
  · split
    · rw [List.map_map]
      rfl
    · rfl

theorem appendStrategyDesyncs_eq (strategy : String) (n : Nat) :
    appendStrategyDesyncs strategy n = (strategyItems strategy).map (Item.inBatch n) := by
  rw [appendStrategyDesyncs, strategyItems, List.map_flatMap]
  congr 1
  funext rawLine
  dsimp only
  split
  · rfl
  · split
    · rw [List.map_map]
      rfl
    · rfl

/-- A desync as a strategy has it; a text without a number gets one. -/
structure Source where
  text : List Char
  tagged : Bool
  untagged : tagged = true → contains text ":strategy=" = false

def Source.plain (text : List Char) : Source := ⟨text, false, fun h => Bool.noConfusion h⟩

def Source.emit (n : Nat) (source : Source) : List Char :=
  if source.tagged then source.text ++ tag n else source.text

theorem escapeConfLt_eq (cs : List Char) : escapeConfLt cs = escape '\\' '<' cs := rfl

theorem isPrefixOf_of_escape {needle : List Char} (hescape : '\\' ∉ needle) {cs : List Char}
    (h : needle.isPrefixOf (escapeConfLt cs) = true) : needle.isPrefixOf cs = true := by
  induction needle generalizing cs with
  | nil => rfl
  | cons n ns ih =>
      rw [List.mem_cons, not_or] at hescape
      cases cs with
      | nil => exact h
      | cons c cs =>
          by_cases hc : c = '<'
          · rw [hc, escapeConfLt_eq, escape_bad, List.isPrefixOf_cons_cons, Bool.and_eq_true, beq_iff_eq] at h
            exact absurd h.1.symm hescape.1
          · rw [escapeConfLt_eq, escape_cons hc, List.isPrefixOf_cons_cons, Bool.and_eq_true] at h
            rw [List.isPrefixOf_cons_cons, Bool.and_eq_true]
            exact ⟨h.1, ih hescape.2 h.2⟩

/-- Escaping makes no occurrence of a text without its two characters. -/
theorem hasInfix_of_escape {n : Char} {ns cs : List Char} (hescape : '\\' ∉ n :: ns)
    (hlt : n ≠ '<') (h : hasInfix (n :: ns) (escapeConfLt cs) = true) :
    hasInfix (n :: ns) cs = true := by
  induction cs with
  | nil => exact h
  | cons c cs ih =>
      by_cases hc : c = '<'
      · rw [hc, escapeConfLt_eq, escape_bad, hasInfix, hasInfix, List.isPrefixOf_cons_cons,
          List.isPrefixOf_cons_cons] at h
        have hback : (n == '\\') = false := by
          rw [beq_eq_false_iff_ne]
          exact fun he => hescape (he ▸ List.mem_cons_self)
        have hless : (n == '<') = false := beq_eq_false_iff_ne.mpr hlt
        rw [hback, hless, Bool.false_and, Bool.false_and, Bool.false_or, Bool.false_or] at h
        rw [hasInfix, ih h, Bool.or_true]
      · rw [escapeConfLt_eq, escape_cons hc, hasInfix, Bool.or_eq_true] at h
        rw [hasInfix, Bool.or_eq_true]
        rcases h with hhead | htail
        · left
          rw [← escape_cons hc] at hhead
          exact isPrefixOf_of_escape hescape hhead
        · exact Or.inr (ih htail)

theorem contains_escape {text : List Char} (h : contains text ":strategy=" = false) :
    contains (escapeConfLt text) ":strategy=" = false := by
  cases he : contains (escapeConfLt text) ":strategy=" with
  | false => rfl
  | true =>
      have htext := hasInfix_of_escape (n := ':') (by decide) (by decide) he
      rw [← h]
      exact htext.symm

theorem mem_tag {n : Nat} {c : Char} (h : c ∈ tag n) : c ∈ ":strategy=".toList ∨ c.isDigit := by
  rw [tag, String.toList_append, List.mem_append, Nat.toString_eq_repr, Nat.toList_repr] at h
  exact h.imp_right (Nat.isDigit_of_mem_toDigits (by decide) (by decide))

theorem tag_no_lt (n : Nat) : '<' ∉ tag n := by
  intro h
  exact absurd (mem_tag h) (by decide)

def Item.directive : Item → Line Source
  | .cli arg => (ConfRun.directive (sanitizeArgForConf arg)).mapCore Source.plain
  | .core text => .use ⟨escapeConfLt text, !contains text ":strategy=", fun h =>
      contains_escape (by simpa using h)⟩

theorem directive_desyncLine (core : List Char) :
    directive (desyncLine core).toList = .use core := by
  have hpayload : value ("--lua-desync=".toList ++ core) "--payload=" = none := rfl
  have hout : value ("--lua-desync=".toList ++ core) "--out-range=" = none := rfl
  have hin : value ("--lua-desync=".toList ++ core) "--in-range=" = none := rfl
  have hdesync : value ("--lua-desync=".toList ++ core) "--lua-desync=" = some core := rfl
  have hline : (desyncLine core).toList = "--lua-desync=".toList ++ core := String.toList_ofList
  simp only [directive, hline, hpayload, hout, hin, hdesync]

theorem mapCore_plain {f : Source → List Char} (hf : ∀ text, f (.plain text) = text)
    (d : Line (List Char)) : (d.mapCore Source.plain).mapCore f = d := by
  cases d with
  | set kind value => rfl
  | use core => exact congrArg Directive.use (hf core)
  | other => rfl

theorem directive_alone (item : Item) :
    directive item.alone.toList = item.directive.mapCore Source.text := by
  cases item with
  | cli arg =>
      rw [Item.alone, String.toList_ofList]
      exact (@mapCore_plain Source.text (fun _ => rfl) _).symm
  | core text =>
      rw [Item.alone, directive_desyncLine]
      rfl

theorem directive_inBatch (n : Nat) (item : Item) :
    directive (item.inBatch n).toList = item.directive.mapCore (Source.emit n) := by
  cases item with
  | cli arg =>
      rw [Item.inBatch, String.toList_ofList]
      exact (@mapCore_plain (Source.emit n) (fun _ => rfl) _).symm
  | core text =>
      rw [Item.inBatch, directive_desyncLine, Item.directive, Directive.mapCore, Source.emit]
      by_cases hc : contains text ":strategy=" = true
      · rw [if_pos hc, if_neg (by simp [hc])]
      · rw [if_neg hc, if_pos (by simpa using hc), escapeConfLt_eq, escape_append,
          escape_eq_self (tag_no_lt n)]
        rfl

end Blockchecks.ConfRun
