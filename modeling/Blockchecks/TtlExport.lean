import Blockchecks.TtlOptions

namespace Blockchecks.TtlExport

open StrategyText LuaConf NfqwsConfig ExportConf ExportFilter ConfRun Escaping ExportNumbers BlobScan TtlOptions

def stripEnd (text : List Char) : List Char := (text.reverse.dropWhile isSpace).reverse

/-- What stands behind the last colon. -/
def lastOption (core : List Char) : List Char := (core.reverse.takeWhile (· ≠ ':')).reverse

/-- The option that comes out when the white space behind it goes. -/
def trailingTtl (core : List Char) : List Int :=
  if core.getLast?.any isSpace then (ttlOption (stripEnd (lastOption core))).toList else []

def readTtl (core : List Char) : List Int := readOptions (core.splitOn ':')

/-- The options of a core in its line that the check does not see. -/
def hiddenTtl (core : List Char) : List Int := skippedOptions (core.splitOn ':') ++ trailingTtl core

def InRange (n : Int) : Prop := 0 ≤ n ∧ n ≤ 255

section cores

variable {core front last name : List Char} {n : Int}

theorem coreTtlOk_iff (core : List Char) : coreTtlOk core = true ↔ ∀ n ∈ readTtl core, InRange n := by
  rw [coreTtlOk, List.all_eq_true, ttlValues_eq]
  simp only [decide_eq_true_eq]
  rfl

theorem stripEnd_eq_self (h : last.getLast?.any isSpace = false) : stripEnd last = last := by
  rcases List.eq_nil_or_concat last with rfl | ⟨front, c, rfl⟩
  · rfl
  · rw [List.concat_eq_append, List.getLast?_concat] at h
    have hc : isSpace c = false := h
    rw [List.concat_eq_append, stripEnd, List.reverse_concat, List.dropWhile_cons_of_neg (Bool.eq_false_iff.mp hc),
      List.reverse_cons, List.reverse_reverse]

theorem stripEnd_subset : stripEnd last ⊆ last := fun _ hc =>
  List.mem_reverse.mp (List.dropWhile_subset _ (List.mem_reverse.mp hc))

theorem option_plain {text : List Char} (h : ':' ∉ text) : ∀ c ∈ text, decide (c ≠ ':') = true := fun _ hc =>
  decide_eq_true fun heq => h (heq ▸ hc)

theorem lastOption_colon (front : List Char) (h : ':' ∉ last) : lastOption (front ++ ':' :: last) = last := by
  have hplain := option_plain (fun hmem => h (List.mem_reverse.mp hmem))
  rw [lastOption, List.reverse_append, List.reverse_cons, List.append_assoc,
    List.takeWhile_append_of_pos hplain]
  exact (congrArg List.reverse (List.append_nil _)).trans (List.reverse_reverse last)

theorem lastOption_eq_self (h : ':' ∉ last) : lastOption last = last := by
  have hplain := option_plain (fun hmem => h (List.mem_reverse.mp hmem))
  rw [lastOption, List.takeWhile_eq_self_iff.mpr hplain, List.reverse_reverse]

/-- A core is cut at its last colon. -/
theorem last_colon (h : ':' ∈ core) : ∃ front last, core = front ++ ':' :: last ∧ ':' ∉ last := by
  obtain ⟨back, rest, heq, hback⟩ := List.eq_append_cons_of_mem (List.mem_reverse.mpr h)
  refine ⟨rest.reverse, back.reverse, ?_, fun hmem => hback (List.mem_reverse.mp hmem)⟩
  rw [← List.reverse_reverse core, heq, List.reverse_append, List.reverse_cons, List.append_assoc]
  rfl

theorem dropWhile_stop {p : Char → Bool} {c : Char} (hc : p c = false) (pre post : List Char) :
    (pre ++ c :: post).dropWhile p = pre.dropWhile p ++ c :: post := by
  induction pre with
  | nil => exact List.dropWhile_cons_of_neg (Bool.eq_false_iff.mp hc)
  | cons d pre ih =>
      rw [List.cons_append]
      cases hd : p d with
      | true => rw [List.dropWhile_cons_of_pos hd, List.dropWhile_cons_of_pos hd, ih]
      | false =>
          have hstay : ¬ p d = true := Bool.eq_false_iff.mp hd
          rw [List.dropWhile_cons_of_neg hstay, List.dropWhile_cons_of_neg hstay]
          rfl

theorem takeWhile_stop {p : Char → Bool} {c : Char} (hc : p c = false) (pre post : List Char) :
    (pre ++ c :: post).takeWhile p = pre.takeWhile p := by
  induction pre with
  | nil => exact List.takeWhile_cons_of_neg (Bool.eq_false_iff.mp hc)
  | cons d pre ih => rw [List.cons_append, List.takeWhile_cons, List.takeWhile_cons, ih]

theorem strip_colon (front last : List Char) :
    strip (front ++ ':' :: last) = front.dropWhile isSpace ++ ':' :: stripEnd last := by
  rw [strip, dropWhile_stop (by decide), List.reverse_append, List.reverse_cons, List.append_assoc,
    List.singleton_append, dropWhile_stop (by decide), List.reverse_append, List.reverse_cons, List.append_assoc,
    List.reverse_reverse, stripEnd]
  rfl

theorem equals_not_mem_of_strip {text : List Char} (h : '=' ∉ strip text) : '=' ∉ text := by
  intro hmem
  have hspace : isSpace '=' = false := by decide
  obtain ⟨pre, post, rfl⟩ := List.append_of_mem hmem
  rw [strip, dropWhile_stop hspace, List.reverse_append, List.reverse_cons, List.append_assoc, List.singleton_append,
    dropWhile_stop hspace, List.reverse_append, List.reverse_cons, List.append_assoc] at h
  exact h (List.mem_append_right _ List.mem_cons_self)

theorem name_no_equals (h : isLuaFunctionCore core = true) : '=' ∉ core.takeWhile (· ≠ ':') := by
  rw [isLuaFunctionCore, Bool.and_eq_true] at h
  refine equals_not_mem_of_strip fun hmem => ?_
  have hword := word_of_component (Bool.or_eq_true_iff.mpr (Or.inl h.2))
  rw [String.toList_ofList] at hword
  exact absurd (hword '=' hmem) (by decide)

/-- White space before the name of a function hides no option. -/
theorem ttlOptions_dropWhile (h : '=' ∉ front.takeWhile (· ≠ ':')) :
    ttlOptions (front.dropWhile isSpace) = ttlOptions front := by
  have hempty {name : List Char} (hname : '=' ∉ name) : ttlOptions (name.dropWhile isSpace) = [] :=
    ttlOptions_no_equals _ fun hmem => hname (List.dropWhile_subset _ hmem)
  by_cases hcolon : ':' ∈ front
  · obtain ⟨name, mid, rfl, hname⟩ := List.eq_append_cons_of_mem hcolon
    rw [takeWhile_stop (by decide), List.takeWhile_eq_self_iff.mpr (option_plain hname)] at h
    rw [dropWhile_stop (by decide), ttlOptions_colon, ttlOptions_colon, hempty h, ttlOptions_no_equals name h]
  · rw [List.takeWhile_eq_self_iff.mpr (option_plain hcolon)] at h
    rw [hempty h, ttlOptions_no_equals front h]

theorem getLast?_colon (front last : List Char) :
    (front ++ ':' :: last).getLast?.any isSpace = last.getLast?.any isSpace := by
  cases last with
  | nil => rw [List.getLast?_concat]; rfl
  | cons c last =>
      rw [List.getLast?_append_of_ne_nil _ (List.cons_ne_nil _ _), List.getLast?_cons_cons]

theorem mem_stripEnd_iff (front : List Char) (hlast : ':' ∉ last) (n : Int) : n ∈ ttlOptions (stripEnd last) ↔
    n ∈ ttlOptions last ∨ n ∈ trailingTtl (front ++ ':' :: last) := by
  rw [trailingTtl, getLast?_colon, lastOption_colon front hlast]
  cases hspace : last.getLast?.any isSpace with
  | false =>
      rw [stripEnd_eq_self hspace, if_neg Bool.false_ne_true]
      exact (or_iff_left List.not_mem_nil).symm
  | true =>
      have hnone : ttlOption last = none := by
        rcases List.eq_nil_or_concat last with rfl | ⟨front, c, rfl⟩
        · rfl
        · rw [List.concat_eq_append, List.getLast?_concat] at hspace
          rw [List.concat_eq_append]
          exact ttlOption_space List.getLast?_concat hspace
      have hstrip : ':' ∉ stripEnd last := fun hmem => hlast (stripEnd_subset hmem)
      rw [if_pos rfl, ttlOptions_single hlast, ttlOptions_single hstrip, hnone]
      exact (or_iff_right List.not_mem_nil).symm

/-- The options of a core survive its strip, and one may join them. -/
theorem mem_strip_iff (h : isLuaFunctionCore core = true) (n : Int) :
    n ∈ ttlOptions (strip core) ↔ n ∈ ttlOptions core ∨ n ∈ trailingTtl core := by
  have hname := name_no_equals h
  by_cases hcolon : ':' ∈ core
  · obtain ⟨front, last, rfl, hlast⟩ := last_colon hcolon
    rw [takeWhile_stop (by decide)] at hname
    rw [strip_colon, ttlOptions_colon, ttlOptions_colon, ttlOptions_dropWhile hname, List.mem_append,
      List.mem_append, mem_stripEnd_iff front hlast, or_assoc]
  · rw [List.takeWhile_eq_self_iff.mpr (option_plain hcolon)] at hname
    have hstrip : '=' ∉ strip core := fun hmem =>
      hname (List.dropWhile_subset _ (stripEnd_subset hmem))
    have hnone : ttlOption (stripEnd (lastOption core)) = none := by
      rw [lastOption_eq_self hcolon]
      cases hn : ttlOption (stripEnd core) with
      | none => rfl
      | some v => exact absurd (stripEnd_subset (equals_mem_of_ttl hn)) hname
    rw [trailingTtl, hnone, ttlOptions_no_equals _ hstrip, ttlOptions_no_equals core hname, Option.toList_none, ite_self]
    exact (or_self_iff).symm

/-- The number that an export puts behind a core is no TTL option. -/
theorem ttlOptions_ensure (text : List Char) (n : Nat) : ttlOptions (ensureStrategyN text n) = ttlOptions (strip text) := by
  rw [ensureStrategyN]
  by_cases hnumber : hasStrategyN (strip text) = true
  · rw [if_pos hnumber]
  · have htag : (":strategy=" ++ toString n).toList = ':' :: ("strategy=".toList ++ (toString n).toList) := by
      rw [String.toList_append]
      rfl
    have hdigits : ':' ∉ (toString n).toList := by
      rw [Nat.toString_eq_repr, Nat.toList_repr]
      exact fun h => absurd (Nat.isDigit_of_mem_toDigits (by decide) (by decide) h) (by decide)
    have hplain : ':' ∉ "strategy=".toList ++ (toString n).toList := by
      rw [List.mem_append, not_or]
      exact ⟨by decide, hdigits⟩
    have hnone : ttlOption ("strategy=".toList ++ (toString n).toList) = none := rfl
    rw [if_neg hnumber, htag, ttlOptions_colon, ttlOptions_single hplain, hnone]
    exact List.append_nil _

end cores

section files

variable (confText : List Char → Option (List Char))

def lineOptions (line : String) : List Int := ttlOptions (desyncValue line.toList)

/-- The TTL options in the lines of desync_cli_lines are numbers of an octet. -/
def LinesInRange (strategies : List String) : Prop :=
  ∀ line ∈ (desyncCliLines confText strategies).filter isDesyncLine, ∀ n ∈ lineOptions line, InRange n

/-- A strategy with all options in range passes the check. -/
def Spared (strategy : String) : Prop :=
  LinesInRange confText [strategy] → ∀ core ∈ exportCores confText strategy, coreTtlOk core.text = true

/-- A hidden option out of range is not alone: the strategy is dropped for another one
or for the name of a blob. -/
def Disclosed (strategy : String) : Prop :=
  (∃ core ∈ exportCores confText strategy, ∃ n ∈ hiddenTtl core.text, ¬ InRange n) →
    (∃ core ∈ exportCores confText strategy, ∃ n ∈ readTtl core.text, ¬ InRange n) ∨
      ∃ core ∈ exportCores confText strategy, ∃ value ∈ finditer exportReference core.text, blobExportOk value = false

variable {confText}

theorem exportCore_function {strategy : String} {core : ExportPart} (hcore : core ∈ exportCores confText strategy) :
    isLuaFunctionCore core.text = true := by
  rw [exportCores, List.mem_filter, Bool.not_eq_true'] at hcore
  rcases parts_exported hcore.1 with hfunction | ⟨hcli, -⟩
  · exact hfunction
  · exact absurd hcli (Bool.eq_false_iff.mp hcore.2)

/-- The options in the line of a core. -/
theorem lineOptions_core {strategy : String} {core : ExportPart} (hcore : core ∈ exportCores confText strategy)
    (k : Nat) (n : Int) : n ∈ lineOptions (exportLine k core) ↔ n ∈ readTtl core.text ∨ n ∈ hiddenTtl core.text := by
  have hcli : ¬ startsWith core.text "--" = true := by
    rw [exportCores, List.mem_filter, Bool.not_eq_true'] at hcore
    exact Bool.eq_false_iff.mp hcore.2
  rw [lineOptions, exportLine, if_neg hcli, String.toList_ofList, desyncValue, List.drop_left, sanitizeArgForConf,
    ttlOptions_escape, ttlOptions_ensure, mem_strip_iff (exportCore_function hcore), ttlOptions, mem_options_iff,
    hiddenTtl, List.mem_append, readTtl, or_assoc]

theorem linesInRange_iff (strategies : List String) : LinesInRange confText strategies ↔
    ∀ strategy ∈ strategies, ∀ core ∈ exportCores confText strategy,
      (∀ n ∈ readTtl core.text, InRange n) ∧ ∀ n ∈ hiddenTtl core.text, InRange n := by
  have hnames : (strategies.zipIdx 1).map Prod.fst = strategies := List.zipIdx_map_fst 1 strategies
  rw [LinesInRange, desyncLines_eq]
  conv => rhs; rw [← hnames]
  simp only [List.forall_mem_flatMap, List.forall_mem_map]
  refine forall₂_congr fun p _ => forall₂_congr fun core hcore => ?_
  simp only [lineOptions_core hcore, or_imp, forall_and]

theorem spared (strategy : String) : Spared confText strategy := by
  intro hlines core hcore
  rw [linesInRange_iff, List.forall_mem_singleton] at hlines
  exact (coreTtlOk_iff core.text).mpr (hlines core hcore).1

theorem kept_inRange_iff (strategy : String) :
    (∀ kept, keepExportStrategy confText strategy = some kept → ∀ core ∈ exportCores confText kept,
      (∀ n ∈ readTtl core.text, InRange n) ∧ ∀ n ∈ hiddenTtl core.text, InRange n) ↔ Disclosed confText strategy := by
  constructor
  · rintro h ⟨core, hcore, n, hn, hout⟩
    by_contra hopen
    rw [not_or] at hopen
    obtain ⟨hread, hblob⟩ := hopen
    push Not at hread hblob
    by_cases hparts : strategyPartsForExport confText strategy = []
    · rw [exportCores, hparts] at hcore
      exact absurd hcore List.not_mem_nil
    · have hkept : keepExportStrategy confText strategy = some strategy := (keep_iff strategy strategy).mpr
        ⟨rfl, hparts, fun core hcore => ⟨(coreTtlOk_iff core.text).mpr (hread core hcore), fun value hvalue =>
          Bool.not_eq_false _ ▸ hblob core hcore value hvalue⟩⟩
      exact hout ((h strategy hkept core hcore).2 n hn)
  · intro h kept hkeep core hcore
    obtain ⟨rfl, -, hok⟩ := (keep_iff strategy kept).mp hkeep
    refine ⟨(coreTtlOk_iff core.text).mp (hok core hcore).1, fun n hn => ?_⟩
    by_contra hout
    rcases h ⟨core, hcore, n, hn, hout⟩ with ⟨other, hother, m, hm, hbad⟩ | ⟨other, hother, value, hvalue, hbad⟩
    · exact hbad ((coreTtlOk_iff other.text).mp (hok other hother).1 m hm)
    · rw [(hok other hother).2 value hvalue] at hbad
      exact Bool.noConfusion hbad

variable (confText)

end files

end Blockchecks.TtlExport
