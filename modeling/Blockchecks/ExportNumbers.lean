import Blockchecks.ConfRun
import Blockchecks.ExportFilter
import Mathlib.Data.List.Dedup
import Mathlib.Data.List.Induction
import Mathlib.Data.List.TakeWhile

namespace Blockchecks.ExportNumbers

open StrategyText LuaConf NfqwsConfig ExportConf ExportFilter ConfRun Escaping

def numberWord : List Char := "strategy=".toList

/-- The number at the head of a text, if it is whole. -/
def numberBody (text : List Char) : Option Nat :=
  let digits := text.takeWhile Char.isDigit
  if digits ≠ [] ∧ (text.drop digits.length).head?.any isWordChar = false then
    some (Nat.ofDigitChars 10 digits 0)
  else none

def numberAt : List Char → Option Nat
  | ':' :: cs => if numberWord.isPrefixOf cs then numberBody (cs.drop numberWord.length) else none
  | _ => none

/-- The numbers of a line, from the left. -/
def strategyNumbers : List Char → List Nat
  | [] => []
  | c :: cs => (numberAt (c :: cs)).toList ++ strategyNumbers cs

section numbers

variable {text rest digits : List Char} {c : Char} {n : Nat}

theorem numberAt_of_ne (h : c ≠ ':') : numberAt (c :: text) = none := by
  rw [numberAt]
  rintro cs heq
  exact h (List.cons.inj heq).1

theorem strategyNumbers_of_ne (h : c ≠ ':') : strategyNumbers (c :: text) = strategyNumbers text := by
  rw [strategyNumbers, numberAt_of_ne h]
  rfl

theorem strategyNumbers_append {pre : List Char} (h : ':' ∉ pre) (text : List Char) :
    strategyNumbers (pre ++ text) = strategyNumbers text := by
  induction pre with
  | nil => rfl
  | cons c pre ih =>
      rw [List.mem_cons, not_or] at h
      rw [List.cons_append, strategyNumbers_of_ne (Ne.symm h.1), ih h.2]

theorem takeWhile_digits (hdigits : ∀ c ∈ digits, c.isDigit = true) (hrest : rest.head?.any Char.isDigit = false) :
    (digits ++ rest).takeWhile Char.isDigit = digits := by
  rw [List.takeWhile_append_of_pos hdigits]
  cases rest with
  | nil => exact List.append_nil digits
  | cons c rest =>
      have hc : c.isDigit = false := hrest
      rw [List.takeWhile_cons_of_neg (Bool.eq_false_iff.mp hc), List.append_nil]

theorem numberBody_split (hdigits : ∀ c ∈ digits, c.isDigit = true) (hrest : rest.head?.any Char.isDigit = false) :
    numberBody (digits ++ rest) = if digits ≠ [] ∧ rest.head?.any isWordChar = false then
      some (Nat.ofDigitChars 10 digits 0) else none := by
  rw [numberBody, takeWhile_digits hdigits hrest, List.drop_left]

/-- Every text is its digits and a rest that does not begin with one. -/
theorem digits_split (text : List Char) : ∃ digits rest, text = digits ++ rest ∧
    (∀ c ∈ digits, c.isDigit = true) ∧ rest.head?.any Char.isDigit = false := by
  refine ⟨text.takeWhile Char.isDigit, text.dropWhile Char.isDigit,
    (List.takeWhile_append_dropWhile).symm, fun c hc => List.mem_takeWhile_imp hc, ?_⟩
  cases hdrop : text.dropWhile Char.isDigit with
  | nil => rfl
  | cons c rest =>
      have hhead := List.head?_dropWhile_not Char.isDigit text
      rw [hdrop] at hhead
      simpa using hhead

theorem numberBody_colon (text rest : List Char) : numberBody (text ++ ':' :: rest) = numberBody text := by
  obtain ⟨digits, tail, rfl, hdigits, htail⟩ := digits_split text
  rw [List.append_assoc, numberBody_split hdigits htail]
  cases tail with
  | nil => exact numberBody_split hdigits rfl
  | cons c tail => exact numberBody_split hdigits htail

theorem numberBody_escape (text : List Char) : numberBody (escapeConfLt text) = numberBody text := by
  obtain ⟨digits, tail, rfl, hdigits, htail⟩ := digits_split text
  have hplain : escapeConfLt digits = digits := by
    rw [escapeConfLt_eq]
    exact escape_eq_self (fun h => absurd (hdigits '<' h) (by decide))
  rw [escapeConfLt_eq, escape_append, ← escapeConfLt_eq, hplain, numberBody_split hdigits htail]
  cases tail with
  | nil => exact numberBody_split hdigits rfl
  | cons c tail =>
      by_cases hc : c = '<'
      · rw [hc, escape_bad]
        exact numberBody_split hdigits rfl
      · rw [escape_cons hc]
        exact numberBody_split hdigits htail

theorem isPrefixOf_colon {word : List Char} (h : ':' ∉ word) (text rest : List Char) :
    word.isPrefixOf (text ++ ':' :: rest) = word.isPrefixOf text := by
  induction word generalizing text with
  | nil => rfl
  | cons w word ih =>
      rw [List.mem_cons, not_or] at h
      cases text with
      | nil =>
          rw [List.nil_append, List.isPrefixOf_cons_cons, beq_eq_false_iff_ne.mpr (Ne.symm h.1)]
          rfl
      | cons c text => rw [List.cons_append, List.isPrefixOf_cons_cons, List.isPrefixOf_cons_cons, ih h.2]

theorem isPrefixOf_escape {word : List Char} (hescape : '\\' ∉ word) (hlt : '<' ∉ word) (text : List Char) :
    word.isPrefixOf (escapeConfLt text) = word.isPrefixOf text := by
  induction word generalizing text with
  | nil => rfl
  | cons w word ih =>
      rw [List.mem_cons, not_or] at hescape hlt
      cases text with
      | nil => rfl
      | cons c text =>
          by_cases hc : c = '<'
          · rw [hc, escapeConfLt_eq, escape_bad, List.isPrefixOf_cons_cons, List.isPrefixOf_cons_cons,
              beq_eq_false_iff_ne.mpr (Ne.symm hescape.1), beq_eq_false_iff_ne.mpr (Ne.symm hlt.1)]
            rfl
          · rw [escapeConfLt_eq, escape_cons hc, List.isPrefixOf_cons_cons, List.isPrefixOf_cons_cons,
              ← escapeConfLt_eq, ih hescape.2 hlt.2]

theorem numberAt_colon (text rest : List Char) : numberAt ((c :: text) ++ ':' :: rest) = numberAt (c :: text) := by
  by_cases hc : c = ':'
  · rw [hc, List.cons_append, numberAt, numberAt, isPrefixOf_colon (by decide)]
    split
    next hstarts =>
      obtain ⟨tail, rfl⟩ := List.isPrefixOf_iff_prefix.mp hstarts
      rw [List.append_assoc, List.drop_left, List.drop_left, numberBody_colon]
    next => rfl
  · rw [List.cons_append, numberAt_of_ne hc, numberAt_of_ne hc]

theorem numberAt_escape (text : List Char) :
    numberAt (':' :: escapeConfLt text) = numberAt (':' :: text) := by
  rw [numberAt, numberAt, isPrefixOf_escape (by decide) (by decide)]
  split
  next hstarts =>
    obtain ⟨tail, rfl⟩ := List.isPrefixOf_iff_prefix.mp hstarts
    have hword : escape '\\' '<' numberWord = numberWord := escape_eq_self (by decide)
    rw [escapeConfLt_eq, escape_append, hword, List.drop_left, List.drop_left, ← escapeConfLt_eq, numberBody_escape]
  next => rfl

theorem strategyNumbers_colon (text rest : List Char) :
    strategyNumbers (text ++ ':' :: rest) = strategyNumbers text ++ strategyNumbers (':' :: rest) := by
  induction text with
  | nil => rfl
  | cons c text ih =>
      have hat := numberAt_colon (c := c) text rest
      rw [List.cons_append] at hat
      have hcons : strategyNumbers (c :: text) = (numberAt (c :: text)).toList ++ strategyNumbers text := rfl
      rw [List.cons_append, strategyNumbers, hat, ih, hcons, List.append_assoc]

theorem strategyNumbers_escape (text : List Char) : strategyNumbers (escapeConfLt text) = strategyNumbers text := by
  induction text with
  | nil => rfl
  | cons c text ih =>
      by_cases hc : c = '<'
      · rw [hc, escapeConfLt_eq, escape_bad, strategyNumbers_of_ne (by decide), strategyNumbers_of_ne (by decide),
          strategyNumbers_of_ne (by decide), ← escapeConfLt_eq, ih]
      · rw [escapeConfLt_eq, escape_cons hc, ← escapeConfLt_eq]
        by_cases hcolon : c = ':'
        · rw [hcolon, strategyNumbers, strategyNumbers, numberAt_escape, ih]
        · rw [strategyNumbers_of_ne hcolon, strategyNumbers_of_ne hcolon, ih]

theorem strategyNumbers_tag (n : Nat) : strategyNumbers (tag n) = [n] := by
  have htag : tag n = ':' :: (numberWord ++ Nat.toDigits 10 n) := by
    rw [tag, String.toList_append, Nat.toString_eq_repr, Nat.toList_repr]
    rfl
  have hdigits : ∀ c ∈ Nat.toDigits 10 n, c.isDigit = true := fun c hc =>
    Nat.isDigit_of_mem_toDigits (by decide) (by decide) hc
  have hbody : numberBody (Nat.toDigits 10 n) = some n := by
    have hsplit : numberBody (Nat.toDigits 10 n ++ []) = _ := numberBody_split hdigits rfl
    rw [List.append_nil] at hsplit
    rw [hsplit, if_pos ⟨Nat.toDigits_ne_nil, rfl⟩, Nat.ofDigitChars_ten_toDigits]
  have hat : numberAt (tag n) = some n := by
    rw [htag, numberAt, if_pos (List.isPrefixOf_iff_prefix.mpr (List.prefix_append _ _)), List.drop_left, hbody]
  have hrest : strategyNumbers (numberWord ++ Nat.toDigits 10 n) = [] := by
    rw [strategyNumbers_append (by decide)]
    have hplain : ':' ∉ Nat.toDigits 10 n := fun h => absurd (hdigits _ h) (by decide)
    have happend := strategyNumbers_append hplain []
    rwa [List.append_nil] at happend
  rw [htag, strategyNumbers, ← htag, hat, hrest]
  rfl

theorem numberBody_isSome (text : List Char) : (numberBody text).isSome =
    (!(text.takeWhile Char.isDigit).isEmpty &&
      !(text.drop (text.takeWhile Char.isDigit).length).head?.any isWordChar) := by
  rw [numberBody]
  generalize text.takeWhile Char.isDigit = digits
  generalize (text.drop digits.length).head?.any isWordChar = word
  cases digits with
  | nil => rfl
  | cons d digits =>
      cases word with
      | false => rfl
      | true => rfl

theorem numberAt_isSome (text : List Char) : (numberAt text).isSome = (startsWith text ":strategy=" &&
    !((text.drop ":strategy=".toList.length).takeWhile Char.isDigit).isEmpty &&
    !((text.drop ":strategy=".toList.length).drop
      ((text.drop ":strategy=".toList.length).takeWhile Char.isDigit).length).head?.any isWordChar) := by
  have hword : ":strategy=".toList = ':' :: numberWord := rfl
  cases text with
  | nil => rfl
  | cons c text =>
      rw [startsWith, hword, List.isPrefixOf_cons_cons, List.length_cons, List.drop_succ_cons]
      by_cases hc : c = ':'
      · rw [hc, beq_self_eq_true, Bool.true_and, numberAt]
        split
        next hstarts => rw [hstarts, numberBody_isSome, Bool.true_and]
        next hstarts => rw [Bool.eq_false_iff.mpr hstarts, Bool.false_and, Bool.false_and, Option.isSome_none]
      · rw [numberAt_of_ne hc, beq_eq_false_iff_ne.mpr (Ne.symm hc)]
        rfl

theorem hasStrategyN_iff (text : List Char) : hasStrategyN text = true ↔ strategyNumbers text ≠ [] := by
  induction text with
  | nil => exact ⟨fun h => Bool.noConfusion h, fun h => absurd rfl h⟩
  | cons c text ih =>
      have hcons : hasStrategyN (c :: text) = ((numberAt (c :: text)).isSome || hasStrategyN text) := by
        rw [numberAt_isSome, hasStrategyN]
      rw [hcons, strategyNumbers, Bool.or_eq_true, ih]
      cases numberAt (c :: text) with
      | none => exact ⟨fun h => h.elim (fun h => Bool.noConfusion h) id, Or.inr⟩
      | some n => exact ⟨fun _ => List.cons_ne_nil n _, fun _ => Or.inl rfl⟩

/-- The numbers of a core after ensure_strategy_n. -/
theorem strategyNumbers_ensure (text : List Char) (n : Nat) :
    strategyNumbers (ensureStrategyN text n) =
      if strategyNumbers (strip text) = [] then [n] else strategyNumbers (strip text) := by
  rw [ensureStrategyN]
  by_cases hnone : strategyNumbers (strip text) = []
  · rw [if_neg (fun h => (hasStrategyN_iff _).mp h hnone), if_pos hnone]
    change strategyNumbers (strip text ++ tag n) = _
    have htag : tag n = ':' :: (tag n).tail := by
      rw [tag, String.toList_append]
      rfl
    rw [htag, strategyNumbers_colon, ← htag, hnone, strategyNumbers_tag, List.nil_append]
  · rw [if_pos ((hasStrategyN_iff _).mpr hnone), if_neg hnone]

end numbers

section files

variable {confText : List Char → Option (List Char)}

def isCli (part : ExportPart) : Bool := startsWith part.text "--"

def isDesyncLine (line : String) : Bool := startsWith line.toList "--lua-desync="

theorem core_not_cli {core : List Char} (h : isLuaFunctionCore core = true) : startsWith core "--" = false := by
  rw [isLuaFunctionCore, Bool.and_eq_true, Bool.and_eq_true] at h
  exact (Bool.not_eq_true' _).mp h.1.2

theorem fileCores_function {path : List Char} {part : ExportPart}
    (hpart : part ∈ luaDesyncCoresFromConf confText path) : isLuaFunctionCore part.text = true := by
  rw [luaDesyncCoresFromConf] at hpart
  split at hpart
  next => exact absurd hpart List.not_mem_nil
  next =>
    obtain ⟨core, hcore, rfl⟩ := List.mem_map.mp hpart
    exact (List.mem_filter.mp hcore).2

/-- What an export passes on: the core of a function, or a fragment of a command line
that begins no desync and names no path. -/
def Exported (part : ExportPart) : Prop :=
  isLuaFunctionCore part.text = true ∨
    isCli part = true ∧ startsWith part.text "--lua-desync=" = false ∧ '/' ∉ part.text

theorem exportPart_exported {text : List Char} {part : ExportPart} (hpart : part ∈ exportPart confText text) :
    Exported part := by
  rw [exportPart] at hpart
  split at hpart
  next => exact .inl (fileCores_function hpart)
  next =>
    split at hpart
    next =>
      dsimp only at hpart
      split at hpart
      next hcore =>
        rw [List.mem_singleton] at hpart
        exact .inl (hpart ▸ hcore)
      next => exact absurd hpart List.not_mem_nil
    next hdesync =>
      split at hpart
      next hdash =>
        dsimp only at hpart
        split at hpart
        next =>
          obtain ⟨core, hcore, rfl⟩ := List.mem_map.mp hpart
          obtain ⟨token, htoken, rfl⟩ := List.mem_map.mp hcore
          have hlua := (List.mem_filter.mp htoken).2
          rw [Bool.and_eq_true] at hlua
          exact .inl hlua.2
        next =>
          split at hpart
          next => exact absurd hpart List.not_mem_nil
          next hslash =>
            rw [List.mem_singleton] at hpart
            rw [hpart]
            exact .inr ⟨hdash, Bool.eq_false_iff.mpr hdesync, hslash⟩
      next =>
        split at hpart
        next hcore =>
          rw [List.mem_singleton] at hpart
          exact .inl (hpart ▸ hcore)
        next => exact absurd hpart List.not_mem_nil

theorem parts_exported {strategy : String} {part : ExportPart}
    (hpart : part ∈ strategyPartsForExport confText strategy) : Exported part := by
  rw [strategyPartsForExport] at hpart
  split at hpart
  next => exact absurd hpart List.not_mem_nil
  next =>
    split at hpart
    next => exact .inl (fileCores_function hpart)
    next =>
      obtain ⟨text, -, htext⟩ := List.mem_flatMap.mp hpart
      exact exportPart_exported htext

theorem parts_cli {strategy : String} {part : ExportPart} (hpart : part ∈ strategyPartsForExport confText strategy)
    (hcli : isCli part = true) : startsWith part.text "--lua-desync=" = false ∧ '/' ∉ part.text := by
  rcases parts_exported hpart with hcore | ⟨-, hfragment⟩
  · rw [isCli, core_not_cli hcore] at hcli
    exact Bool.noConfusion hcli
  · exact hfragment

theorem isDesyncLine_exportLine {strategy : String} {part : ExportPart} (n : Nat)
    (hpart : part ∈ strategyPartsForExport confText strategy) :
    isDesyncLine (exportLine n part) = !isCli part := by
  rw [isDesyncLine, exportLine]
  split
  next hcli =>
    change startsWith part.text "--" = true at hcli
    rw [String.toList_ofList, startsWith, sanitizeArgForConf, isPrefixOf_escape (by decide) (by decide), isCli,
      hcli]
    exact (parts_cli hpart hcli).1
  next hcli =>
    change ¬ startsWith part.text "--" = true at hcli
    rw [String.toList_ofList, startsWith, isCli, Bool.eq_false_iff.mpr hcli]
    exact List.isPrefixOf_iff_prefix.mpr (List.prefix_append _ _)

variable (confText) in
/-- The desync lines of an export. -/
theorem desyncLines_eq (strategies : List String) : (desyncCliLines confText strategies).filter isDesyncLine =
    (strategies.zipIdx 1).flatMap (fun p => (exportCores confText p.1).map (exportLine p.2)) := by
  rw [desyncCliLines, List.filter_flatMap]
  congr 1
  funext p
  rw [List.filter_map, exportCores]
  congr 1
  exact List.filter_congr (fun part hpart => isDesyncLine_exportLine p.2 hpart)

/-- What a line says its strategy's number is: one number, if it is not at odds with itself. -/
def lineNumbers (line : String) : List Nat := (strategyNumbers line.toList).dedup

/-- The numbers that a core brings along. -/
def ownNumbers (core : ExportPart) : List Nat := (strategyNumbers (strip core.text)).dedup

theorem lineNumbers_core {core : ExportPart} (n : Nat) (hcore : isCli core = false) :
    lineNumbers (exportLine n core) = if ownNumbers core = [] then [n] else ownNumbers core := by
  change startsWith core.text "--" = false at hcore
  rw [lineNumbers, exportLine, if_neg (Bool.eq_false_iff.mp hcore), String.toList_ofList, sanitizeArgForConf,
    strategyNumbers_append (by decide), strategyNumbers_escape, strategyNumbers_ensure, ownNumbers]
  by_cases hown : strategyNumbers (strip core.text) = []
  · rw [if_pos hown, hown]
    rfl
  · rw [if_neg hown, if_neg (fun h => hown ((List.dedup_eq_nil _).mp h))]

variable (confText)

/-- The cores that a strategy of the list contributes to an export. -/
def keptCores (strategy : String) : List ExportPart :=
  match keepExportStrategy confText (renameExportBlobs strategy) with
  | none => []
  | some kept => exportCores confText kept

/-- Kept for its fragments of a command line alone. -/
def CliOnly (strategy : String) : Prop :=
  ∃ kept, keepExportStrategy confText (renameExportBlobs strategy) = some kept ∧ exportCores confText kept = []

/-- The desync lines have the numbers 1 to K in this order, one number for each of
the K kept strategies that have a core, on every line of it. -/
def Numbered (strategies : List String) : Prop :=
  let kept := filterExportStrategies confText strategies
  let withCore := kept.filter (fun strategy => exportCores confText strategy ≠ [])
  ((desyncCliLines confText kept).filter isDesyncLine).map lineNumbers =
    (withCore.zipIdx 1).flatMap (fun p => (exportCores confText p.1).map (fun _ => [p.2]))

/-- The number of the next strategy with a core. -/
def rank (before : List String) : Nat := before.countP (fun strategy => keptCores confText strategy ≠ []) + 1

/-- The number that desync_cli_lines has for the next kept strategy. -/
def position (before : List String) : Nat :=
  before.countP (fun strategy => (keepExportStrategy confText (renameExportBlobs strategy)).isSome) + 1

theorem position_concat (before : List String) (strategy : String) :
    position confText (before ++ [strategy]) = position confText before +
      if (keepExportStrategy confText (renameExportBlobs strategy)).isSome then 1 else 0 := by
  rw [position, List.countP_append, List.countP_singleton, position]
  omega

theorem rank_concat (before : List String) (strategy : String) : rank confText (before ++ [strategy]) =
    rank confText before + if keptCores confText strategy ≠ [] then 1 else 0 := by
  rw [rank, List.countP_append, List.countP_singleton, rank]
  simp only [decide_eq_true_eq]
  omega

theorem rank_le_position (before : List String) : rank confText before ≤ position confText before := by
  refine Nat.succ_le_succ (List.countP_mono_left (fun strategy _ hcores => ?_))
  rw [decide_eq_true_eq, keptCores] at hcores
  split at hcores
  next => exact absurd rfl hcores
  next heq =>
    rw [heq]
    rfl

theorem position_eq_rank_iff (before : List String) :
    position confText before = rank confText before ↔ ∀ strategy ∈ before, ¬ CliOnly confText strategy := by
  induction before using List.reverseRecOn with
  | nil =>
      rw [position, rank, List.countP_nil, List.countP_nil]
      exact ⟨fun _ _ h => absurd h List.not_mem_nil, fun _ => rfl⟩
  | append_singleton before strategy ih =>
      have hle := rank_le_position confText before
      rw [position_concat, rank_concat, List.forall_mem_append, List.forall_mem_singleton, ← ih, CliOnly, keptCores]
      cases hkeep : keepExportStrategy confText (renameExportBlobs strategy) with
      | none => simp
      | some kept =>
          by_cases hnil : exportCores confText kept = []
          · simp [hnil]
            omega
          · simp [hnil]

/-- A property of every element of a list and of what is before it. -/
theorem forall_split_cons {α : Type} {P : List α → α → Prop} {a : α} {l : List α} :
    (∀ before x after, a :: l = before ++ x :: after → P before x) ↔
      P [] a ∧ ∀ before x after, l = before ++ x :: after → P (a :: before) x := by
  refine ⟨fun h => ⟨h [] a l rfl, fun before x after hl => h (a :: before) x after (congrArg (a :: ·) hl)⟩, ?_⟩
  rintro ⟨hhead, htail⟩ before x after heq
  cases before with
  | nil =>
      obtain ⟨rfl, -⟩ := List.cons.inj heq
      exact hhead
  | cons b before =>
      obtain ⟨rfl, hl⟩ := List.cons.inj heq
      exact htail before x after hl

/-- One core of a strategy that comes after others. -/
theorem core_numbered_iff {core : ExportPart} (before : List String) (hcore : isCli core = false) :
    lineNumbers (exportLine (position confText before) core) = [rank confText before] ↔
      ownNumbers core = [rank confText before] ∨
        ownNumbers core = [] ∧ ∀ other ∈ before, ¬ CliOnly confText other := by
  rw [lineNumbers_core _ hcore, ← position_eq_rank_iff]
  split
  next hown =>
    rw [hown, List.cons_eq_cons, and_iff_left rfl]
    exact ⟨fun h => Or.inr ⟨rfl, h⟩, fun h => h.elim (fun h => absurd h (List.cons_ne_nil _ _).symm) And.right⟩
  next hown => exact ⟨Or.inl, fun h => h.elim id (fun h => absurd h.1 hown)⟩

/-- What the lines of a list of kept strategies say. -/
def given (n : Nat) (kept : List String) : List (List Nat) :=
  (kept.zipIdx n).flatMap (fun p => (exportCores confText p.1).map (fun core => lineNumbers (exportLine p.2 core)))

/-- What they have to say. -/
def due (n : Nat) (kept : List String) : List (List Nat) :=
  ((kept.filter (fun strategy => exportCores confText strategy ≠ [])).zipIdx n).flatMap
    (fun p => (exportCores confText p.1).map (fun _ => [p.2]))

theorem given_cons (n : Nat) (strategy : String) (kept : List String) : given confText n (strategy :: kept) =
    (exportCores confText strategy).map (fun core => lineNumbers (exportLine n core)) ++
      given confText (n + 1) kept := by
  rw [given, List.zipIdx_cons, List.flatMap_cons, given]

theorem due_cons (n : Nat) (strategy : String) (kept : List String) : due confText n (strategy :: kept) =
    (exportCores confText strategy).map (fun _ => [n]) ++
      due confText (n + if exportCores confText strategy ≠ [] then 1 else 0) kept := by
  rw [due, List.filter_cons]
  by_cases hnil : exportCores confText strategy = []
  · rw [if_neg (by simp [hnil]), if_neg (by simp [hnil]), hnil, due]
    rfl
  · rw [if_pos (by simp [hnil]), if_pos hnil, List.zipIdx_cons, List.flatMap_cons, due]

theorem given_eq_due_iff (before strategies : List String) :
    given confText (position confText before) (filterExportStrategies confText strategies) =
        due confText (rank confText before) (filterExportStrategies confText strategies) ↔
      ∀ earlier strategy later, strategies = earlier ++ strategy :: later →
        ∀ core ∈ keptCores confText strategy, ownNumbers core = [rank confText (before ++ earlier)] ∨
          ownNumbers core = [] ∧ ∀ other ∈ before ++ earlier, ¬ CliOnly confText other := by
  induction strategies generalizing before with
  | nil =>
      refine ⟨fun _ earlier strategy later h => ?_, fun _ => rfl⟩
      exact absurd h.symm (List.append_ne_nil_of_right_ne_nil _ (List.cons_ne_nil _ _))
  | cons strategy strategies ih =>
      have hrest := ih (before ++ [strategy])
      simp only [List.append_assoc, List.singleton_append] at hrest
      rw [forall_split_cons (P := fun earlier strategy => ∀ core ∈ keptCores confText strategy,
        ownNumbers core = [rank confText (before ++ earlier)] ∨
          ownNumbers core = [] ∧ ∀ other ∈ before ++ earlier, ¬ CliOnly confText other), ← hrest, List.append_nil,
        position_concat, rank_concat, filterExportStrategies, List.filterMap_cons, ← filterExportStrategies]
      cases hkeep : keepExportStrategy confText (renameExportBlobs strategy) with
      | none =>
          have hcores : keptCores confText strategy = [] := by rw [keptCores, hkeep]
          rw [hcores]
          exact ⟨fun h => ⟨fun _ hcore => absurd hcore List.not_mem_nil, h⟩, And.right⟩
      | some kept =>
          have hcores : keptCores confText strategy = exportCores confText kept := by rw [keptCores, hkeep]
          dsimp only
          rw [hcores, given_cons, due_cons]
          have hblock : (exportCores confText kept).map (fun core =>
                lineNumbers (exportLine (position confText before) core)) =
              (exportCores confText kept).map (fun _ => [rank confText before]) ↔
              ∀ core ∈ exportCores confText kept, ownNumbers core = [rank confText before] ∨
                ownNumbers core = [] ∧ ∀ other ∈ before, ¬ CliOnly confText other := by
            rw [List.map_inj_left]
            refine forall₂_congr (fun core hcore => core_numbered_iff confText before ?_)
            exact (Bool.not_eq_true' _).mp (List.mem_filter.mp hcore).2
          rw [← hblock]
          refine ⟨fun h => List.append_inj h ?_, fun h => congrArg₂ (· ++ ·) h.1 h.2⟩
          rw [List.length_map, List.length_map]

/-- The numbers are 1 to K if and only if a number that a strategy brings along is the
one due to it, and no strategy without a core precedes one that brings none. -/
theorem numbered_iff (strategies : List String) : Numbered confText strategies ↔
    ∀ before strategy after, strategies = before ++ strategy :: after →
      ∀ core ∈ keptCores confText strategy, ownNumbers core = [rank confText before] ∨
        ownNumbers core = [] ∧ ∀ other ∈ before, ¬ CliOnly confText other := by
  have hfrom := given_eq_due_iff confText [] strategies
  simp only [List.nil_append] at hfrom
  rw [← hfrom, Numbered, desyncLines_eq, List.map_flatMap]
  simp only [List.map_map]
  rfl

theorem flatMap_filter {α β : Type} {p : α → Bool} {f : α → List β} {l : List α}
    (h : ∀ x ∈ l, p x = false → f x = []) : (l.filter p).flatMap f = l.flatMap f := by
  induction l with
  | nil => rfl
  | cons x l ih =>
      rw [List.forall_mem_cons] at h
      rw [List.filter_cons, List.flatMap_cons, ← ih h.2]
      cases hp : p x with
      | true => rfl
      | false => rw [h.1 hp]; rfl

/-- A core that brings a number keeps it, and the others of its strategy share one
that grows along the list; where every kept strategy has a core these are 1 to K. -/
theorem export_numbers (strategies : List String) :
    ∃ numbered : List (String × Nat), numbered.map Prod.fst =
        (filterExportStrategies confText strategies).filter
          (fun strategy => decide (exportCores confText strategy ≠ [])) ∧
      numbered.Pairwise (fun p q => p.2 < q.2) ∧
      ((desyncCliLines confText (filterExportStrategies confText strategies)).filter isDesyncLine).map
          lineNumbers =
        numbered.flatMap (fun p => (exportCores confText p.1).map (fun core =>
          if ownNumbers core = [] then [p.2] else ownNumbers core)) ∧
      ((∀ strategy ∈ filterExportStrategies confText strategies, exportCores confText strategy ≠ []) →
        numbered = (filterExportStrategies confText strategies).zipIdx 1) := by
  generalize filterExportStrategies confText strategies = kept
  have hordered : (kept.zipIdx 1).Pairwise (fun p q => p.2 < q.2) := by
    rw [← List.pairwise_map (R := fun m n : Nat => m < n), List.zipIdx_map_snd]
    exact List.pairwise_lt_range'
  refine ⟨(kept.zipIdx 1).filter (fun p => decide (exportCores confText p.1 ≠ [])), ?_, hordered.filter _, ?_, ?_⟩
  · have hmap := List.filter_map (p := fun strategy => decide (exportCores confText strategy ≠ [])) (f := Prod.fst)
      (l := kept.zipIdx 1)
    rw [List.zipIdx_map_fst] at hmap
    exact hmap.symm
  · have hblock : ∀ p : String × Nat, (exportCores confText p.1).map (fun core => lineNumbers (exportLine p.2 core)) =
        (exportCores confText p.1).map (fun core => if ownNumbers core = [] then [p.2] else ownNumbers core) :=
      fun p => List.map_congr_left (fun core hcore =>
        lineNumbers_core p.2 ((Bool.not_eq_true' _).mp (List.mem_filter.mp hcore).2))
    rw [desyncLines_eq, List.map_flatMap, flatMap_filter]
    · congr 1
      funext p
      rw [← hblock p, List.map_map]
      rfl
    · intro p _ hnone
      rw [decide_eq_false_iff_not, not_not] at hnone
      rw [hnone, List.map_nil]
  · intro hall
    refine List.filter_eq_self.mpr (fun p hp => decide_eq_true ?_)
    exact hall p.1 (List.fst_mem_of_mem_zipIdx hp)

end files

def gapList : List String := ["--payload=tls_client_hello", "fake:ttl=3"]

def ownList : List String := ["fake:ttl=3", "multisplit:pos=1:strategy=1"]

/-- The number 1 is missing, and two strategies have it. -/
theorem gapList_ownList : ¬ Numbered (fun _ => none) gapList ∧ ¬ Numbered (fun _ => none) ownList := by
  rw [Numbered, Numbered]
  decide +kernel

end Blockchecks.ExportNumbers
