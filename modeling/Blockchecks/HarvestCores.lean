import Blockchecks.BatchService
import Blockchecks.BlobOwn
import Blockchecks.HarvestBatch
import Blockchecks.KeeneticClosed
import Blockchecks.TextFile
import Blockchecks.WordSame

namespace Blockchecks.HarvestCores

open StrategyText OrderedDict LuaConf NfqwsConfig ExportConf ExportFilter BlobScan WordRefs WordSame BlobWords
  ConfRewrite BlobRename BlobOwn TextLines TextFile HarvestBatch BatchService

def digitLeading (name : List Char) : Prop :=
  name.head?.any Char.isDigit = true ∧ isHexBlob (String.ofList name) = false

def hexLiteral (name : List Char) : Prop := isHexBlob (String.ofList name) = true

/-- The desyncs of a strategy: its lines that do not begin with two dashes. -/
def desyncCores (text : List Char) : List (List Char) :=
  (strippedLines text).filter (fun line => !startsWith line "--")

/-- The same core up to renamed digit-leading blob names. -/
def SameCore (core core' : List Char) : Prop := (words core').1 = (words core).1 ∧
  SameWords blobGrammar ('b' :: ·) digitLeading (words core).1 (words core).2 (words core').2

/-- Whether a core has the name behind a keyword of a blob. -/
def refersTo (name : String) (core : List Char) : Bool :=
  refers blobGrammar name.toList (words core).1 (words core).2

section names

variable {name : String}

theorem isIdentifier_digit (h : name.toList.head?.any Char.isDigit = true) : isIdentifier name = false := by
  rw [isIdentifier]
  split
  next => rfl
  next c cs heq =>
    rw [heq, List.head?_cons, Option.any_some, Char.isDigit] at h
    have hno : (c.isAlpha || c == '_') = false := by
      refine Bool.eq_false_iff.mpr (fun hyes => ?_)
      change ((decide ('A'.val ≤ c.val ∧ c.val ≤ 'Z'.val) || (decide ('a'.val ≤ c.val) && decide (c.val ≤ 'z'.val)))
        || c == '_') = true at hyes
      simp only [Bool.or_eq_true, Bool.and_eq_true, decide_eq_true_eq, beq_iff_eq, ge_iff_le,
        UInt32.le_iff_toNat_le] at h hyes
      rcases hyes with (hyes | hyes) | rfl
      · exact absurd (Nat.le_trans hyes.1 h.2) (by decide)
      · exact absurd (Nat.le_trans hyes.1 h.2) (by decide)
      · exact absurd h.2 (by decide)
    rw [hno, Bool.false_and]

theorem digit_of_not_identifier (hword : IsWord name.toList) (hne : name ≠ "") (h : isIdentifier name = false) :
    name.toList.head?.any Char.isDigit = true := by
  cases hname : name.toList with
  | nil => exact absurd (String.toList_injective (hname.trans rfl)) hne
  | cons c cs =>
      rw [hname] at hword
      obtain ⟨hc, hcs⟩ := List.forall_mem_cons.mp hword
      rw [isIdentifier, hname] at h
      change ((c.isAlpha || c == '_') && cs.all isWordChar) = false at h
      rw [List.all_eq_true.mpr hcs, Bool.and_true, Bool.or_eq_false_iff] at h
      change (c.isAlpha || c.isDigit || c == '_') = true at hc
      rw [h.1, h.2, Bool.false_or, Bool.or_false] at hc
      rw [List.head?_cons, Option.any_some, hc]

theorem hex_digits (h : isHexBlob name = true) :
    ∃ digits, name.toList = '0' :: 'x' :: digits ∧ ∀ c ∈ digits, isHexDigit c = true := by
  rw [isHexBlob, Bool.and_eq_true, Bool.and_eq_true, List.all_eq_true] at h
  obtain ⟨digits, hdigits⟩ := List.isPrefixOf_iff_prefix.mp h.1.1
  refine ⟨digits, hdigits.symm, fun c hc => h.2 c ?_⟩
  rw [← hdigits]
  exact hc

theorem hex_digit (h : isHexBlob name = true) : name.toList.head?.any Char.isDigit = true := by
  obtain ⟨digits, hname, -⟩ := hex_digits h
  rw [hname]
  rfl

theorem isHexBlob_b (name : String) : isHexBlob ("b" ++ name) = false := by
  rw [isHexBlob, String.toList_append]
  rfl

/-- A literal has none of the letters of the keywords. -/
theorem isKeyword_hex (h : isHexBlob name = true) : isKeyword name.toList = false := by
  obtain ⟨digits, hname, hdigits⟩ := hex_digits h
  have hchars : ∀ c ∈ name.toList, isHexDigit c = true ∨ c = 'x' := by
    rw [hname]
    exact List.forall_mem_cons.mpr ⟨Or.inl (by decide), List.forall_mem_cons.mpr ⟨Or.inr rfl,
      fun c hc => Or.inl (hdigits c hc)⟩⟩
  rw [isKeyword, Bool.or_eq_false_iff]
  refine ⟨Bool.eq_false_iff.mpr (fun hblob => ?_), Bool.eq_false_iff.mpr (fun hpattern => ?_)⟩
  · have hl := (List.isSuffixOf_iff_suffix.mp hblob).subset (by decide : 'l' ∈ "blob".toList)
    exact absurd (hchars 'l' hl) (by decide)
  · have hp := (List.isSuffixOf_iff_suffix.mp hpattern).subset (by decide : 'p' ∈ "pattern".toList)
    exact absurd (hchars 'p' hp) (by decide)

end names

theorem naming : Naming blobGrammar ('b' :: ·) digitLeading hexLiteral where
  key := fun v hv => by
    have hdigit : v.head?.any Char.isDigit = true := by
      rcases hv with hv | hv
      · exact hv.1
      · have h := hex_digit hv
        rwa [String.toList_ofList] at h
    rw [← @String.toList_ofList v] at hdigit
    have hkey := isKeyword_b (isIdentifier_digit hdigit)
    rw [String.toList_append, @String.toList_ofList v] at hkey
    exact hkey
  fresh := fun v _ => by
    have hhex := isHexBlob_b (String.ofList v)
    have hb : String.ofList ('b' :: v) = "b" ++ String.ofList v := by
      rw [← String.toList_inj, String.toList_append, @String.toList_ofList v, String.toList_ofList]
      rfl
    refine ⟨fun hmay => absurd hmay.1 ?_, fun hkept => ?_⟩
    · rw [List.head?_cons, Option.any_some]
      decide
    · rw [hexLiteral, hb, hhex] at hkept
      cases hkept
  apart := fun v hv => by
    have hkey := isKeyword_hex hv
    rw [String.toList_ofList] at hkey
    refine ⟨fun hmay => ?_, hkey⟩
    rw [hexLiteral, hmay.2] at hv
    cases hv

theorem words_rewriteText {entries : List (String × String)} (hentries : AllWords entries) (core : List Char) :
    words (rewriteText entries core) =
      ((words core).1, renamedAll blobGrammar (entries.map asLists) (words core).1 (words core).2) := by
  obtain ⟨hw, hps⟩ := words_areWords core
  obtain ⟨htext, hwords⟩ := rewriteText_words hentries hw hps
  rw [join_words] at htext
  rw [htext, words_join hw hwords]

/-- Entries that put a b before names that begin with a digit. -/
def Prefixed (entries : List (String × String)) : Prop := ∀ e ∈ entries,
  IsWord e.1.toList ∧ e.1.toList.head?.any Char.isDigit = true ∧ e.2 = "b" ++ e.1

section prefixed

variable {entries : List (String × String)} (h : Prefixed entries)

include h

theorem Prefixed.allWords : AllWords entries := by
  intro e he
  obtain ⟨hword, -, heq⟩ := h e he
  refine ⟨hword, ?_⟩
  rw [heq, String.toList_append]
  exact List.forall_mem_cons.mpr ⟨by decide, hword⟩

theorem sameCore_rewriteText_iff (core : List Char) : SameCore core (rewriteText entries core) ↔
    ∀ e ∈ entries, isHexBlob e.1 = true → refersTo e.1 core = false := by
  have hlists : ∀ e ∈ entries.map asLists, (digitLeading e.1 ∨ hexLiteral e.1) ∧ e.2 = 'b' :: e.1 := by
    intro p hp
    obtain ⟨e, he, rfl⟩ := List.mem_map.mp hp
    obtain ⟨-, hdigit, heq⟩ := h e he
    refine ⟨?_, ?_⟩
    · rw [digitLeading, hexLiteral, asLists, String.ofList_toList]
      cases hhex : isHexBlob e.1 with
      | true => exact Or.inr rfl
      | false => exact Or.inl ⟨hdigit, rfl⟩
    · rw [asLists, heq, String.toList_append]
      rfl
  rw [SameCore, words_rewriteText h.allWords, and_iff_right rfl, renamedAll_same_iff naming hlists,
    List.forall_mem_map]
  refine forall₂_congr (fun e _ => ?_)
  rw [hexLiteral, asLists, String.ofList_toList]
  rfl

theorem desyncCores_rewriteText (text : List Char) :
    desyncCores (rewriteText entries text) = (desyncCores text).map (rewriteText entries) := by
  have hR := rewriteText_rewrites h.allWords
  rw [desyncCores, desyncCores, strippedLines, strippedLines, hR.split_map layout.line (by decide), List.map_map,
    List.filter_filter, List.filter_filter, List.filter_map, List.filter_map, List.map_map]
  have hstrip : strip ∘ rewriteText entries = rewriteText entries ∘ strip := funext (hR.strip_map layout.space)
  rw [hstrip]
  refine congrArg _ (List.filter_congr (fun line _ => ?_))
  simp only [Function.comp_apply, hR.startsWith_map layout.dashes, ne_eq, hR.eq_nil_iff]

/-- The cores of a renamed text are the same exactly if no literal is renamed in them. -/
theorem cores_same_iff (text : List Char) :
    List.Forall₂ SameCore (desyncCores text) (desyncCores (rewriteText entries text)) ↔
      ∀ core ∈ desyncCores text, ∀ e ∈ entries, isHexBlob e.1 = true → refersTo e.1 core = false := by
  rw [desyncCores_rewriteText h, List.forall₂_map_right_iff, List.forall₂_same]
  exact forall₂_congr (fun core _ => sameCore_rewriteText_iff h core)

end prefixed

section renames

theorem mem_extractBlobNames {name text : String} :
    name ∈ extractBlobNames text ↔ name ∈ references text ∧ name ≠ "0x00000000" := by
  rw [extractBlobNames, mem_addAll, List.mem_filter, decide_eq_true_eq]
  exact or_iff_right List.not_mem_nil

/-- The renames to the safe names of those that a text refers to. -/
def safeRenames (q : String → Bool) (text : String) : Renames :=
  ((extractBlobNames text).filter q).foldl (fun renames name => renames.set name (safeBlobName name)) .empty

variable {q : String → Bool} {text : String} {e : String × String}

theorem mem_safeRenames : e ∈ (safeRenames q text).entries ↔
    e.1 ∈ extractBlobNames text ∧ q e.1 = true ∧ e.2 = safeBlobName e.1 := by
  rw [← Dict.get?_eq_some_iff (safeRenames q text) e.1 e.2, safeRenames, Dict.get?_foldl_set, Dict.get?_empty,
    ← and_assoc, ← List.mem_filter]
  split
  next hmem => rw [Option.some.injEq, and_iff_right hmem, eq_comm]
  next hmem => exact iff_of_false (Option.some_ne_none e.2).symm (fun h => hmem h.1)

theorem mem_effective_safeRenames : e ∈ effective (safeRenames q text).entries ↔
    e.1 ∈ extractBlobNames text ∧ q e.1 = true ∧ isIdentifier e.1 = false ∧ e.2 = "b" ++ e.1 := by
  rw [effective, List.mem_filter, mem_safeRenames, Bool.not_eq_true', decide_eq_false_iff_not, not_or, not_or,
    safeBlobName]
  constructor
  · rintro ⟨⟨hmem, hq, heq⟩, -, -, hne⟩
    split at heq
    · exact absurd heq.symm hne
    next hident => exact ⟨hmem, hq, Bool.eq_false_iff.mpr hident, heq⟩
  · rintro ⟨hmem, hq, hident, heq⟩
    rw [hident, if_neg Bool.false_ne_true, heq]
    have hne := (references_word (mem_extractBlobNames.mp hmem).1).2
    refine ⟨⟨hmem, hq, rfl⟩, hne, fun hb => ?_, fun hb => ?_⟩
    · exact absurd (congrArg String.length hb) (by rw [String.length_append]; simp)
    · exact absurd (congrArg String.length hb) (by rw [String.length_append]; simp)

theorem prefixed_safeRenames : Prefixed (effective (safeRenames q text).entries) := by
  intro e he
  obtain ⟨hmem, -, hident, heq⟩ := mem_effective_safeRenames.mp he
  obtain ⟨hword, hne⟩ := references_word (mem_extractBlobNames.mp hmem).1
  exact ⟨hword, digit_of_not_identifier hword hne hident, heq⟩

theorem made_safeRenames : Made (safeRenames q text).entries where
  nodup := (safeRenames q text).nodup
  word := fun _ he => references_word (mem_extractBlobNames.mp (mem_safeRenames.mp he).1).1
  safe := fun _ he => Or.inr (mem_safeRenames.mp he).2.2

/-- The renames of an export leave the literals of a text. -/
theorem hex_references (hq : ∀ name, isHexBlob name = true → q name = false) :
    (references (applyBlobRenames text (safeRenames q text))).filter isHexBlob =
      (references text).filter isHexBlob := by
  have hmade : Made (safeRenames q text).entries := made_safeRenames
  have hnames := references_renamed hmade text
  generalize references (applyBlobRenames text (safeRenames q text)) = idents at hnames
  generalize references text = names at hnames
  induction hnames with
  | nil => rfl
  | @cons name ident _ _ hhead _ ih =>
      rcases hhead with rfl | hmem
      · rw [List.filter_cons, List.filter_cons, ih]
      · obtain ⟨-, hyes, -, heq⟩ := mem_effective_safeRenames.mp hmem
        have hno {name : String} (hyes : q name = true) : ¬ isHexBlob name = true := fun hhex =>
          Bool.eq_false_iff.mp (hq name hhex) hyes
        obtain rfl : ident = "b" ++ name := heq
        rw [List.filter_cons_of_neg (hno hyes), List.filter_cons_of_neg (Bool.eq_false_iff.mp (isHexBlob_b name)), ih]

end renames

theorem harvestRenames_eq (text : String) :
    harvestRenames text = safeRenames (fun name => name != safeBlobName name) text := rfl

theorem exportRenames_eq (text : String) :
    exportRenames text = safeRenames (fun name => name != safeBlobName name && !isHexBlob name) text := rfl

/-- A text and what harvest makes of it. The literals that are renamed are those of the text. -/
def Harvested (text : List Char) (result : String) : Prop :=
  ∃ entries, Prefixed entries ∧ result.toList = rewriteText entries text ∧
    ∀ name, isHexBlob name = true → (name ∈ entries.map Prod.fst ↔ name ∈ extractBlobNames (String.ofList text))

section harvested

variable {text : List Char} {result : String}

theorem Harvested.same_iff (h : Harvested text result) :
    List.Forall₂ SameCore (desyncCores text) (desyncCores result.toList) ↔ ∀ core ∈ desyncCores text,
      ∀ name ∈ extractBlobNames (String.ofList text), isHexBlob name = true → refersTo name core = false := by
  obtain ⟨entries, hentries, hresult, hnames⟩ := h
  rw [hresult, cores_same_iff hentries]
  refine forall₂_congr (fun core _ => ⟨fun hall name hname hhex => ?_, fun hall e he hhex => ?_⟩)
  · obtain ⟨e, he, rfl⟩ := List.mem_map.mp ((hnames name hhex).mpr hname)
    exact hall e he hhex
  · exact hall e.1 ((hnames e.1 hhex).mp (List.mem_map_of_mem he)) hhex

theorem Prefixed.append {entries entries' : List (String × String)} (h : Prefixed entries) (h' : Prefixed entries') :
    Prefixed (entries ++ entries') := fun e he => (List.mem_append.mp he).elim (h e) (h' e)

theorem rewriteText_append (entries entries' : List (String × String)) (text : List Char) :
    rewriteText (entries ++ entries') text = rewriteText entries' (rewriteText entries text) := List.foldl_append

theorem export_hex {name : String} (hhex : isHexBlob name = true) :
    (name != safeBlobName name && !isHexBlob name) = false := by
  rw [hhex, Bool.not_true, Bool.and_false]

theorem export_no_hex {strategy name : String} (hhex : isHexBlob name = true) :
    name ∉ (effective (exportRenames strategy).entries).map Prod.fst := by
  intro hmem
  obtain ⟨e, he, rfl⟩ := List.mem_map.mp hmem
  rw [exportRenames_eq] at he
  have hq := (mem_effective_safeRenames.mp he).2.1
  rw [export_hex hhex] at hq
  cases hq

theorem harvest_hex {strategy name : String} (hhex : isHexBlob name = true) :
    name ∈ (effective (harvestRenames strategy).entries).map Prod.fst ↔ name ∈ extractBlobNames strategy := by
  have hident := isIdentifier_digit (hex_digit hhex)
  have hsafe : safeBlobName name = "b" ++ name := by rw [safeBlobName, hident, if_neg Bool.false_ne_true]
  have hne : name ≠ "b" ++ name := fun heq => by
    have hno := isHexBlob_b name
    rw [← heq, hhex] at hno
    cases hno
  rw [harvestRenames_eq]
  constructor
  · intro hmem
    obtain ⟨e, he, rfl⟩ := List.mem_map.mp hmem
    exact (mem_effective_safeRenames.mp he).1
  · intro hmem
    refine List.mem_map.mpr ⟨(name, "b" ++ name), mem_effective_safeRenames.mpr ⟨hmem, ?_, hident, rfl⟩, rfl⟩
    rw [hsafe]
    exact bne_iff_ne.mpr hne

/-- The literals that a text refers to are not those that an export renames. -/
theorem extract_export {strategy name : String} (hhex : isHexBlob name = true) :
    name ∈ extractBlobNames (renameExportBlobs strategy) ↔ name ∈ extractBlobNames strategy := by
  rw [mem_extractBlobNames, mem_extractBlobNames]
  have hfilter : (references (renameExportBlobs strategy)).filter isHexBlob = (references strategy).filter isHexBlob :=
    hex_references (fun _ hhex => export_hex hhex)
  have hmem (names : List String) : name ∈ names.filter isHexBlob ↔ name ∈ names := by
    rw [List.mem_filter, and_iff_left hhex]
  rw [← hmem (references strategy), ← hfilter, hmem]

section files

variable {confText : List Char → Option (List Char)}

theorem filterExport_one (strategy : String) :
    (filterExportStrategies confText [strategy]).head? = keepExportStrategy confText (renameExportBlobs strategy) := by
  rw [filterExportStrategies, List.filterMap_cons]
  cases keepExportStrategy confText (renameExportBlobs strategy) <;> rfl

theorem harvested_of_filter {strategy : String} (h : (filterExportStrategies confText
    [applyBlobRenames strategy (harvestRenames strategy)]).head? = some result) :
    Harvested strategy.toList result := by
  have hresult := (KeeneticClosed.keep_some ((filterExport_one _).symm.trans h)).1
  refine ⟨effective (harvestRenames strategy).entries ++
      effective (exportRenames (applyBlobRenames strategy (harvestRenames strategy))).entries,
    prefixed_safeRenames.append prefixed_safeRenames, ?_, fun name hhex => ?_⟩
  · rw [hresult, renameExportBlobs, toList_applyBlobRenames, toList_applyBlobRenames, rewriteText_append]
  · rw [List.map_append, List.mem_append, or_iff_left (export_no_hex hhex), harvest_hex hhex, String.ofList_toList]

theorem harvested_of_export {strategy : String} (h : Harvested (renameExportBlobs strategy).toList result) :
    Harvested strategy.toList result := by
  obtain ⟨entries, hentries, hresult, hnames⟩ := h
  refine ⟨effective (exportRenames strategy).entries ++ entries, prefixed_safeRenames.append hentries, ?_,
    fun name hhex => ?_⟩
  · rw [hresult, renameExportBlobs, toList_applyBlobRenames, rewriteText_append]
  · rw [List.map_append, List.mem_append, or_iff_right (export_no_hex hhex), hnames name hhex, String.ofList_toList,
      String.ofList_toList, extract_export hhex]

end files

end harvested

section values

variable {confText : List Char → Option (List Char)}

/-- The values of the lines that give a desync. -/
def desyncValues (lines : List (List Char)) : List (List Char) :=
  ((lines.map strip).filter (fun line => startsWith line "--lua-desync=")).map desyncValue

theorem desyncValues_splitlines (text : List Char) :
    desyncValues (splitlines text) = desyncValues (text.splitOnP isLineBreak) := by
  rw [splitlines]
  split
  next hlast =>
    obtain ⟨parts, hparts⟩ := List.getLast?_eq_some_iff.mp hlast
    rw [hparts, List.dropLast_concat, desyncValues, desyncValues, List.map_append, List.filter_append]
    exact congrArg _ (List.append_nil _).symm
  next => rfl

theorem newline_not_mem_values {text value : List Char} (h : value ∈ desyncValues (text.splitOnP isLineBreak)) :
    '\n' ∉ value := by
  obtain ⟨line, hline, rfl⟩ := List.mem_map.mp h
  obtain ⟨raw, hraw, rfl⟩ := List.mem_map.mp (List.mem_filter.mp hline).1
  intro hmem
  have hno := mem_splitOnP_not hraw ((infix_strip raw).subset (List.mem_of_mem_drop hmem))
  exact absurd hno (by decide)

/-- A conf is read for its cores as the lines are that a test executes, but for those
that name no function. -/
theorem fileCores_eq {path text : List Char} (hpath : dropStrategyN (strip path) = path)
    (hread : confText path = some text) : (luaDesyncCoresFromConf confText path).map ExportPart.text =
      (desyncCores (['\n'].intercalate (desyncValues (splitlines text)))).filter isLuaFunctionCore := by
  have hfunction (core : List Char) : (isLuaFunctionCore core && !startsWith core "--" && decide (core ≠ [])) =
      isLuaFunctionCore core := by
    rw [Bool.and_assoc, Bool.eq_iff_iff, Bool.and_eq_true, Bool.and_eq_true, decide_eq_true_eq]
    refine and_iff_left_of_imp (fun hcore => ⟨?_, ?_⟩)
    · rw [ExportNumbers.core_not_cli hcore]
      rfl
    · rintro rfl
      exact absurd hcore (by decide)
  rw [luaDesyncCoresFromConf, hpath, hread, desyncValues_splitlines, desyncCores,
    strippedLines_intercalate (fun value h => newline_not_mem_values h), List.filter_filter, List.filter_filter]
  simp only [hfunction, desyncValues, List.map_map, List.filter_map]
  rfl

end values

section tested

variable (deps : Deps) (confText : List Char → Option (List Char)) (item : StrategyItem)

/-- An item that was tested: a conf path whose file can be read, or a text, which is
the path of no such file. -/
structure Tested : Prop where
  conf : item.isConfig = true → ".conf".toList <:+ item.strategy.toList ∧ '/' ∈ item.strategy.toList ∧
    strip item.strategy.toList = item.strategy.toList
  read : item.isConfig = true → ∀ text, confText item.strategy.toList = some text →
    deps.readLines item.strategy = (splitlines text).map String.ofList
  inline : item.isConfig = false → looksLikeConfPath (strip item.strategy.toList) = true →
    confText (dropStrategyN (strip item.strategy.toList)) = none

def executedCores : List (List Char) := desyncCores (strategyTextFromItem deps item).toList

/-- What harvest reads the blob names of a core from. -/
def harvestText (core : List Char) : String :=
  if item.isConfig then String.ofList core else String.ofList (strip item.strategy.toList)

/-- A conf has one core, and no core has a hex literal as a blob. -/
structure Harvestable : Prop where
  single : item.isConfig = true → (executedCores deps item).length = 1
  literal : ∀ core ∈ executedCores deps item, ∀ name ∈ extractBlobNames (harvestText item core),
    isHexBlob name = true → refersTo name core = false

variable {deps confText item} {result : String}

theorem Tested.path (h : Tested deps confText item) (hconf : item.isConfig = true) :
    dropStrategyN (strip item.strategy.toList) = item.strategy.toList ∧
      looksLikeConfPath item.strategy.toList = true := by
  obtain ⟨⟨path, hpath⟩, hslash, hstrip⟩ := h.conf hconf
  have hdrop : dropStrategyN item.strategy.toList = item.strategy.toList := by
    have hdigits : item.strategy.toList.reverse.takeWhile Char.isDigit = [] := by
      rw [← hpath, List.reverse_append]
      rfl
    rw [dropStrategyN, hdigits]
    exact if_neg (fun h => h.1 rfl)
  refine ⟨by rw [hstrip, hdrop], ?_⟩
  rw [looksLikeConfPath, hstrip, hdrop, Bool.and_eq_true, List.isSuffixOf_iff_suffix, List.contains_iff_mem]
  exact ⟨⟨path, hpath⟩, hslash⟩

/-- The lines that a test executes a conf by. -/
theorem testedLines_eq (lines : List (List Char)) : ((lines.map String.ofList).filterMap (fun raw =>
    let raw := strip raw.toList
    if startsWith raw "--lua-desync=" then some (String.ofList (raw.drop "--lua-desync=".toList.length))
    else none)).map String.toList = desyncValues lines := by
  rw [desyncValues]
  induction lines with
  | nil => rfl
  | cons line lines ih =>
      rw [List.map_cons, List.filterMap_cons, String.toList_ofList, List.map_cons]
      rw [List.filter_cons]
      by_cases hdesync : startsWith (strip line) "--lua-desync=" = true
      · simp only [hdesync, if_true, List.map_cons, String.toList_ofList]
        rw [← ih]
        rfl
      · simp only [hdesync, if_false, Bool.false_eq_true]
        exact ih

theorem executed_conf (h : Tested deps confText item) (hconf : item.isConfig = true) {text : List Char}
    (hread : confText item.strategy.toList = some text) :
    executedCores deps item = desyncCores (['\n'].intercalate (desyncValues (splitlines text))) := by
  rw [executedCores, strategyTextFromItem, hconf, h.read hconf text hread, Bool.not_true,
    if_neg Bool.false_ne_true, String.toList_intercalate, testedLines_eq]
  rfl

theorem executed_inline (hinline : item.isConfig = false) :
    executedCores deps item = desyncCores (strip item.strategy.toList) := by
  rw [executedCores, strategyTextFromItem, hinline, desyncCores, desyncCores, strippedLines_strip]
  rfl

/-- One core is one line of a text. -/
theorem desyncCores_single {core text : List Char} (h : core ∈ desyncCores text) : desyncCores core = [core] := by
  obtain ⟨hline, hdashes⟩ := List.mem_filter.mp h
  rw [strippedLines_eq] at hline
  obtain ⟨hmem, hne⟩ := List.mem_filter.mp hline
  obtain ⟨raw, hraw, rfl⟩ := List.mem_map.mp hmem
  have hnewline : '\n' ∉ strip raw := by
    intro hin
    have hno := mem_splitOnP_not hraw ((infix_strip raw).subset hin)
    exact absurd hno (by decide)
  rw [desyncCores, strippedLines_eq, List.splitOn_eq_singleton hnewline, List.map_singleton, strip_strip,
    List.filter_cons, if_pos hne, List.filter_nil, List.filter_cons, if_pos hdashes, List.filter_nil]

theorem harvested_conf (h : Tested deps confText item) (hconf : item.isConfig = true)
    (hresult : resolveStrategyString confText item.strategy = some result) :
    ∃ core ∈ executedCores deps item, Harvested core result := by
  obtain ⟨hpath, hlooks⟩ := h.path hconf
  obtain ⟨-, -, hstrip⟩ := h.conf hconf
  rw [resolveStrategyString, hstrip] at hresult
  split at hresult
  next => cases hresult
  next =>
    obtain ⟨strategy, hcore, hkept⟩ := Option.bind_eq_some_iff.mp hresult
    rw [harvestCore, hlooks, if_pos rfl] at hcore
    have hhead := (Option.filter_eq_some_iff.mp hcore).1
    obtain ⟨source, hsource, hkeep⟩ := List.mem_filterMap.mp (List.mem_of_head? hhead)
    obtain ⟨part, hpart, rfl⟩ := List.mem_map.mp hsource
    have hstrategy := (KeeneticClosed.keep_some hkeep).1
    cases hread : confText item.strategy.toList with
    | none =>
        rw [luaDesyncCoresFromConf, hpath, hread] at hpart
        cases hpart
    | some text =>
        have hmem := List.mem_map_of_mem (f := ExportPart.text) hpart
        rw [fileCores_eq hpath hread, ← executed_conf h hconf hread] at hmem
        refine ⟨part.text, (List.mem_filter.mp hmem).1, ?_⟩
        have hharvested := harvested_of_filter hkept
        rw [hstrategy] at hharvested
        have hexport := harvested_of_export hharvested
        rwa [String.toList_ofList] at hexport

theorem harvested_inline (h : Tested deps confText item) (hinline : item.isConfig = false)
    (hresult : resolveStrategyString confText item.strategy = some result) :
    Harvested (strip item.strategy.toList) result := by
  rw [resolveStrategyString] at hresult
  split at hresult
  next => cases hresult
  next =>
    obtain ⟨strategy, hcore, hkept⟩ := Option.bind_eq_some_iff.mp hresult
    rw [harvestCore] at hcore
    split at hcore
    next hlooks =>
      rw [luaDesyncCoresFromConf, strip_strip, h.inline hinline hlooks] at hcore
      cases hcore
    next =>
      have hharvested := harvested_of_filter hkept
      rwa [← Option.some.inj hcore, String.toList_ofList] at hharvested

theorem inline_keeps_iff (h : Tested deps confText item) (hkind : item.isConfig = false)
    (hresult : resolveStrategyString confText item.strategy = some result) :
    List.Forall₂ SameCore (executedCores deps item) (desyncCores result.toList) ↔
      Harvestable deps item := by
  have hsame := (harvested_inline h hkind hresult).same_iff
  have htext (core : List Char) : harvestText item core = String.ofList (strip item.strategy.toList) := by
    rw [harvestText, hkind, if_neg Bool.false_ne_true]
  have hexecuted : executedCores deps item = desyncCores (strip item.strategy.toList) := executed_inline hkind
  rw [← hexecuted] at hsame
  rw [hsame]
  constructor
  · refine fun hliteral => ⟨fun hconf => ?_, fun core hcore name hname => ?_⟩
    · rw [hkind] at hconf
      cases hconf
    · rw [htext] at hname
      exact hliteral core hcore name hname
  · intro hharvest core hcore name hname
    refine hharvest.literal core hcore name ?_
    rwa [htext]

/-- Of a conf the first core is harvested only. -/
theorem conf_keeps_iff (h : Tested deps confText item) (hkind : item.isConfig = true)
    (hresult : resolveStrategyString confText item.strategy = some result) :
    List.Forall₂ SameCore (executedCores deps item) (desyncCores result.toList) ↔
      Harvestable deps item := by
  obtain ⟨core, hcore, hharvested⟩ := harvested_conf h hkind hresult
  have hself := desyncCores_single hcore
  have hsame := hharvested.same_iff
  have htext : harvestText item core = String.ofList core := by rw [harvestText, hkind, if_pos rfl]
  rw [hself] at hsame
  have hsingle (hone : (executedCores deps item).length = 1) : executedCores deps item = [core] := by
    obtain ⟨only, honly⟩ := List.length_eq_one_iff.mp hone
    rw [honly] at hcore
    rw [honly, List.mem_singleton.mp hcore]
  constructor
  · intro hcores
    have hlength : (executedCores deps item).length = 1 := by
      obtain ⟨entries, hentries, heq, -⟩ := hharvested
      rw [hcores.length_eq, heq, desyncCores_rewriteText hentries, hself]
      rfl
    rw [hsingle hlength] at hcores
    refine ⟨fun _ => hlength, fun other hother => ?_⟩
    rw [hsingle hlength] at hother
    rw [List.mem_singleton.mp hother, htext]
    exact hsame.mp hcores core (List.mem_singleton_self core)
  · intro hharvest
    rw [hsingle (hharvest.single hkind)]
    refine hsame.mpr (fun other hother => ?_)
    rw [List.mem_singleton.mp hother, ← htext]
    exact hharvest.literal core hcore

/-- The cores of a harvested strategy are the executed ones exactly if it has one core,
when it is a conf, and no literal as a blob. -/
theorem harvest_keeps_iff (h : Tested deps confText item)
    (hresult : resolveStrategyString confText item.strategy = some result) :
    List.Forall₂ SameCore (desyncCores (strategyTextFromItem deps item).toList) (desyncCores result.toList) ↔
      Harvestable deps item := by
  rw [← executedCores]
  cases hkind : item.isConfig with
  | false => exact inline_keeps_iff h hkind hresult
  | true => exact conf_keeps_iff h hkind hresult

end tested

/-- The probes of a test read no file but those of the given text. -/
def depsOf (confText : List Char → Option (List Char)) : Deps where
  secureDns := false
  timingFor := fun _ t => t
  resolveDomainDns := fun _ => {}
  resolveDomainIps := fun _ => []
  readLines := fun path => (splitlines ((confText path.toList).getD [])).map String.ofList
  classifyFailPhase := fun _ _ => ""

def inlineItem (strategy : String) : StrategyItem := ⟨"s", strategy, false, "tls12"⟩

theorem tested_inline {strategy : String} (h : looksLikeConfPath (strip strategy.toList) = false) :
    Tested (depsOf (fun _ => none)) (fun _ => none) (inlineItem strategy) where
  conf := fun hconf => nomatch hconf
  read := fun hconf => nomatch hconf
  inline := fun _ hlooks => absurd (h.symm.trans hlooks) Bool.false_ne_true

theorem digit_kept : List.Forall₂ SameCore
    (desyncCores (strategyTextFromItem (depsOf (fun _ => none)) (inlineItem "fake:blob=4pda:ttl=3")).toList)
    (desyncCores "fake:blob=b4pda:ttl=3".toList) :=
  (harvest_keeps_iff (tested_inline (by decide +kernel)) (by decide +kernel :
    resolveStrategyString (fun _ => none) "fake:blob=4pda:ttl=3" = some "fake:blob=b4pda:ttl=3")).mpr
    { single := fun hconf => nomatch hconf
      literal := by decide +kernel }

def twoCores (path : List Char) : Option (List Char) :=
  if path = "/c/a.conf".toList then some "--lua-desync=fake:ttl=3\n--lua-desync=multisplit:pos=1\n".toList else none

def confItem : StrategyItem := ⟨"a", "/c/a.conf", true, "tls12"⟩

theorem literal_renamed_core_dropped :
    (Tested (depsOf (fun _ => none)) (fun _ => none) (inlineItem "fake:blob=0x1603:ttl=3") ∧
      resolveStrategyString (fun _ => none) "fake:blob=0x1603:ttl=3" = some "fake:blob=b0x1603:ttl=3" ∧
      ¬ List.Forall₂ SameCore
        (desyncCores (strategyTextFromItem (depsOf (fun _ => none)) (inlineItem "fake:blob=0x1603:ttl=3")).toList)
        (desyncCores "fake:blob=b0x1603:ttl=3".toList)) ∧
    Tested (depsOf twoCores) twoCores confItem ∧
      resolveStrategyString twoCores confItem.strategy = some "fake:ttl=3" ∧
      ¬ List.Forall₂ SameCore (desyncCores (strategyTextFromItem (depsOf twoCores) confItem).toList)
        (desyncCores "fake:ttl=3".toList) := by
  have hinline : resolveStrategyString (fun _ => none) "fake:blob=0x1603:ttl=3" = some "fake:blob=b0x1603:ttl=3" := by
    decide +kernel
  have htested := @tested_inline "fake:blob=0x1603:ttl=3" (by decide +kernel)
  refine ⟨⟨htested, hinline, fun hsame => ?_⟩, ⟨fun _ => ⟨by decide +kernel, by decide, by decide +kernel⟩, ?_, ?_⟩,
    by decide +kernel, fun hsame => ?_⟩
  · have hno := (harvested_inline htested rfl hinline).same_iff.mp hsame "fake:blob=0x1603:ttl=3".toList
      (by decide +kernel) "0x1603" (by decide +kernel) (by decide +kernel)
    exact absurd hno (by decide +kernel)
  · intro _ text htext
    change (splitlines ((twoCores confItem.strategy.toList).getD [])).map String.ofList = _
    rw [htext]
    rfl
  · exact fun hinline => nomatch hinline
  · exact absurd hsame.length_eq (by decide +kernel)

end Blockchecks.HarvestCores
