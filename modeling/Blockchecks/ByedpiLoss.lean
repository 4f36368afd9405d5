import Blockchecks.ByedpiTranslator
import Blockchecks.TtlExport
import Mathlib.Data.List.Find

namespace Blockchecks.ByedpiLoss

open StrategyText ExportConf ExportNumbers TextLines TtlExport ByedpiTranslator

/-- An option of a strategy text: a split position, another option of the first core with its
value, or a whole further core. -/
inductive TextOption where
  | position (pos : List Char)
  | plain (option : List Char)
  | core (text : List Char)
  deriving DecidableEq

def coreOptions (core : List Char) : List TextOption :=
  (core.splitOn ':').tail.flatMap (fun option =>
    if startsWith option "pos=" then ((option.drop "pos=".toList.length).splitOn ',').map .position
    else [.plain option])

def furtherCores (lines : List (List Char)) : List TextOption := ((lines.map strip).filter (· ≠ [])).map .core

def textOptions (strategy : String) : List TextOption :=
  let lines := (strip strategy.toList).splitOn '\n'
  coreOptions (lines.headD []) ++ furtherCores lines.tail

/-- One of the texts has an option that the other one lacks. -/
def Differ (s s' : String) : Prop := ∃ option, ¬ (option ∈ textOptions s ↔ option ∈ textOptions s')

/-- What a full translation reads of a text. -/
structure Reading where
  family : String
  position : String
  file : Option String
  deriving DecidableEq

def fullFamilies : List String := ["fakedsplit", "fakeddisorder", "tlsrec", "oob"]

section files

variable (blobPath : String → Option String)

def readFamily (line : List Char) (family : String) : Reading :=
  if family = "oob" then ⟨family, (urpPos.lookup ((search urpAt line).getD 'b')).getD "0", none⟩
  else if family = "tlsrec" then ⟨family, posToByedpi ((firstMatch line "pos=" posClass).getD "1+s"), none⟩
  else ⟨family, posToByedpi ((firstMatch line "pos=" posClass).getD "1"),
    ((firstMatch line "pattern=" isWordChar).or (firstMatch line "blob=" isWordChar)).bind blobPath⟩

def readingOf (strategy : String) : Option Reading :=
  (familyOf (strip strategy.toList)).map (readFamily blobPath (strip strategy.toList))

/-- The flag of a family, and the one that gets the same position again. -/
def flagsOf (family : String) : String × Option String :=
  if family = "fakedsplit" then ("--fake", some "--disorder")
  else if family = "fakeddisorder" then ("--disorder", some "--fake")
  else if family = "tlsrec" then ("-r", none)
  else ("-o", none)

/-- The argv of a reading in a family that is translated in full. -/
def argvOf (reading : Reading) : List String :=
  let again := ((flagsOf reading.family).2.map (fun flag => [flag, reading.position])).getD []
  let file := (reading.file.map (fun path => ["-l", path])).getD []
  (flagsOf reading.family).1 :: reading.position :: (again ++ file)

/-- The text is translated in full, to the argv. -/
def FullArgv (strategy : String) (argv : List String) : Prop :=
  ∃ t, translate blobPath strategy = some t ∧ t.quality = .translationFull ∧ t.argv = argv

/-- No text that differs in an option has the same full translation. -/
def Lossless (strategy : String) : Prop :=
  ∀ other, Differ strategy other → ∀ argv, FullArgv blobPath strategy argv → ¬ FullArgv blobPath other argv

end files

section reading

variable {blobPath : String → Option String} {strategy : String} {argv : List String}

theorem patternArgv_eq (line : List Char) : patternArgv blobPath line =
    ((((firstMatch line "pattern=" isWordChar).or (firstMatch line "blob=" isWordChar)).bind blobPath).map
      (fun path => ["-l", path])).getD [] := by
  rw [patternArgv]
  cases (firstMatch line "pattern=" isWordChar).or (firstMatch line "blob=" isWordChar) with
  | none => rfl
  | some name =>
      rw [Option.map_some, Option.getD_some, Option.bind_some, blobArgv]
      cases blobPath name with
      | none => rfl
      | some path => rfl

theorem readFamily_family (line : List Char) (family : String) : (readFamily blobPath line family).family = family := by
  rw [readFamily]
  split_ifs
  · rfl
  · rfl
  · rfl

theorem exists_found {found : Option Translation} {t : Translation} (hfound : found = some t) :
    (∃ t, found = some t ∧ t.quality = .translationFull ∧ t.argv = argv) ↔
      t.quality = .translationFull ∧ t.argv = argv := by
  rw [hfound]
  refine ⟨?_, fun h => ⟨t, rfl, h⟩⟩
  rintro ⟨t', ht', hend⟩
  rw [Option.some.inj ht']
  exact hend

theorem family_translation (line : List Char) {family : String} (hfamily : family ∈ supportedFamilies) :
    (∃ t, ((familyTranslators blobPath).lookup family).map (· line) = some t ∧ t.quality = .translationFull ∧
      t.argv = argv) ↔ family ∈ fullFamilies ∧ argvOf (readFamily blobPath line family) = argv := by
  have hpartial {t : Translation} (hquality : t.quality = .translationPartial)
      (hlookup : ((familyTranslators blobPath).lookup family).map (· line) = some t) (hfull : family ∉ fullFamilies) :
      (∃ t, ((familyTranslators blobPath).lookup family).map (· line) = some t ∧ t.quality = .translationFull ∧
        t.argv = argv) ↔ family ∈ fullFamilies ∧ argvOf (readFamily blobPath line family) = argv := by
    rw [exists_found hlookup, hquality]
    exact iff_of_false (fun h => Quality.noConfusion h.1) fun h => hfull h.1
  have hfull {t : Translation} (hquality : t.quality = .translationFull)
      (hlookup : ((familyTranslators blobPath).lookup family).map (· line) = some t) (hfull : family ∈ fullFamilies)
      (hargv : t.argv = argvOf (readFamily blobPath line family)) :
      (∃ t, ((familyTranslators blobPath).lookup family).map (· line) = some t ∧ t.quality = .translationFull ∧
        t.argv = argv) ↔ family ∈ fullFamilies ∧ argvOf (readFamily blobPath line family) = argv := by
    rw [exists_found hlookup, hquality, hargv, and_iff_right rfl, and_iff_right hfull]
  have hcases : family = "hostfakesplit" ∨ family = "fakeddisorder" ∨ family = "multidisorder" ∨
      family = "fakedsplit" ∨ family = "multisplit" ∨ family = "syndata" ∨ family = "tlsrec" ∨ family = "fake" ∨
      family = "oob" := by simpa [supportedFamilies] using hfamily
  rcases hcases with rfl | rfl | rfl | rfl | rfl | rfl | rfl | rfl | rfl
  · exact hpartial (t := translateHostfakesplit line) rfl rfl (by decide)
  · refine hfull (t := translateFakeddisorder blobPath line) rfl rfl (by decide) ?_
    rw [translateFakeddisorder, patternArgv_eq]
    rfl
  · exact hpartial (t := translateMultisplit line) rfl rfl (by decide)
  · refine hfull (t := translateFakedsplit blobPath line) rfl rfl (by decide) ?_
    rw [translateFakedsplit, patternArgv_eq]
    rfl
  · exact hpartial (t := translateMultisplit line) rfl rfl (by decide)
  · exact hpartial (t := translateSyndata line) rfl rfl (by decide)
  · exact hfull (t := translateTlsrec line) rfl rfl (by decide) rfl
  · exact hpartial (t := translateFake blobPath line) rfl rfl (by decide)
  · exact hfull (t := translateOob line) rfl rfl (by decide) rfl

/-- A full translation is the argv of what is read. -/
theorem fullArgv_iff : FullArgv blobPath strategy argv ↔ strip strategy.toList ≠ [] ∧
    hasUnmappedFooling (strip strategy.toList) = false ∧
    ∃ reading, readingOf blobPath strategy = some reading ∧ reading.family ∈ fullFamilies ∧ argvOf reading = argv := by
  rw [FullArgv, ByedpiTranslator.translate, readingOf]
  generalize strip strategy.toList = line
  by_cases hnil : line = []
  · rw [if_pos hnil]
    exact iff_of_false (fun h => absurd h.choose_spec.1 (Option.some_ne_none _).symm) fun h => h.1 hnil
  · rw [if_neg hnil, and_iff_right hnil]
    cases hasUnmappedFooling line with
    | true => exact iff_of_false (fun h => absurd h.choose_spec.1 (Option.some_ne_none _).symm) fun h => Bool.noConfusion h.1
    | false =>
        rw [if_neg Bool.false_ne_true, and_iff_right rfl]
        cases hfamily : familyOf line with
        | none =>
            refine iff_of_false (fun h => absurd h.choose_spec.1 (Option.some_ne_none _).symm) ?_
            rintro ⟨reading, hreading, -⟩
            exact absurd hreading (Option.some_ne_none reading).symm
        | some family =>
            refine (family_translation line (List.mem_of_find?_eq_some hfamily)).trans ?_
            rw [Option.map_some]
            refine ⟨fun h => ⟨_, rfl, (readFamily_family line family).symm ▸ h.1, h.2⟩, ?_⟩
            rintro ⟨reading, hreading, hfull, hargv⟩
            obtain rfl := Option.some.inj hreading
            exact ⟨readFamily_family line family ▸ hfull, hargv⟩

theorem flags_injective {first second : String} (hfirst : first ∈ fullFamilies) (hsecond : second ∈ fullFamilies)
    (h : (flagsOf first).1 = (flagsOf second).1) : first = second := by
  have hall : ∀ first ∈ fullFamilies, ∀ second ∈ fullFamilies,
      (flagsOf first).1 = (flagsOf second).1 → first = second := by decide
  exact hall first hfirst second hsecond h

theorem argvOf_injective {first second : Reading} (hfirst : first.family ∈ fullFamilies)
    (hsecond : second.family ∈ fullFamilies) (h : argvOf first = argvOf second) : first = second := by
  obtain ⟨family, position, file⟩ := first
  obtain ⟨family', position', file'⟩ := second
  rw [argvOf, argvOf] at h
  obtain ⟨hflag, h⟩ := List.cons.inj h
  obtain ⟨hposition, h⟩ := List.cons.inj h
  obtain rfl := flags_injective hfirst hsecond hflag
  dsimp only at hposition h
  obtain rfl := hposition
  have hfile := List.append_cancel_left h
  cases file with
  | none =>
      cases file' with
      | none => rfl
      | some path' => exact absurd hfile (List.cons_ne_nil _ _).symm
  | some path =>
      cases file' with
      | none => exact absurd hfile (List.cons_ne_nil _ _)
      | some path' =>
          have hpath : ["-l", path] = ["-l", path'] := hfile
          rw [(List.cons.inj (List.cons.inj hpath).2).1]

end reading

section appended

variable {α : Type} {m : List Char → Option α} {line rest tail : List Char} {keyword : String} {cls : Char → Bool}
  {p : Char → Bool}

/-- A search goes on behind a colon that no match can pass. -/
theorem search_colon (hempty : m [] = none) (hcolon : ∀ rest, m (':' :: rest) = none)
    (hstop : ∀ text rest, m (text ++ ':' :: rest) = m text) (line rest : List Char) :
    search m (line ++ ':' :: rest) = (search m line).or (search m rest) := by
  induction line with
  | nil =>
      have hhead : search m (':' :: rest) = (m (':' :: rest)).or (search m rest) := rfl
      have hnil : search m [] = m [] := rfl
      rw [List.nil_append, hhead, hcolon, hnil, hempty]
  | cons c line ih =>
      have hat := hstop (c :: line) rest
      rw [List.cons_append] at hat ⊢
      rw [search, hat, ih, search, Option.or_assoc]

theorem assignment_colon (hkeyword : ':' ∉ keyword.toList) (hcls : cls ':' = false) (text rest : List Char) :
    assignment keyword cls (text ++ ':' :: rest) = assignment keyword cls text := by
  have hstart : startsWith (text ++ ':' :: rest) keyword = startsWith text keyword :=
    isPrefixOf_colon hkeyword text rest
  rw [assignment, assignment, hstart]
  split
  next hstarts =>
    obtain ⟨value, rfl⟩ := List.isPrefixOf_iff_prefix.mp hstarts
    rw [List.append_assoc, List.drop_left, List.drop_left, takeWhile_stop hcls]
  next => rfl

theorem urpAt_colon (text rest : List Char) : urpAt (text ++ ':' :: rest) = urpAt text := by
  have hstart : startsWith (text ++ ':' :: rest) "urp=" = startsWith text "urp=" :=
    isPrefixOf_colon (by decide) text rest
  rw [urpAt, urpAt, hstart]
  split
  next hstarts =>
    obtain ⟨value, rfl⟩ := List.isPrefixOf_iff_prefix.mp hstarts
    rw [List.append_assoc, List.drop_left, List.drop_left]
    cases value with
    | nil => rfl
    | cons c value => rfl
  next => rfl

/-- A repeats option with so many digits. -/
def repeatsOption (digits : Nat) : List Char := "repeats=".toList ++ List.replicate digits '1'

theorem search_replicate (hempty : m [] = none) (hone : ∀ rest, m ('1' :: rest) = none) (digits : Nat) :
    search m (List.replicate digits '1') = none := by
  induction digits with
  | zero => rw [List.replicate_zero, search, hempty]
  | succ digits ih => rw [List.replicate_succ, search, hone, ih, Option.none_or]

theorem firstMatch_repeats (hkeyword : keyword ∈ ["pos=", "pattern=", "blob="]) (hcls : cls ':' = false)
    (line : List Char) (digits : Nat) :
    firstMatch (line ++ ':' :: repeatsOption digits) keyword cls = firstMatch line keyword cls := by
  have hread (hempty : assignment keyword cls [] = none) (hcolon : ∀ rest, assignment keyword cls (':' :: rest) = none)
      (hplain : ':' ∉ keyword.toList) (hnone : search (assignment keyword cls) (repeatsOption digits) = none) :
      firstMatch (line ++ ':' :: repeatsOption digits) keyword cls = firstMatch line keyword cls := by
    rw [firstMatch, search_colon hempty hcolon (assignment_colon hplain hcls), hnone, Option.or_none, firstMatch]
  have hcases : keyword = "pos=" ∨ keyword = "pattern=" ∨ keyword = "blob=" := by simpa using hkeyword
  rcases hcases with rfl | rfl | rfl
  · exact hread rfl (fun _ => rfl) (by decide) (search_replicate rfl (fun _ => rfl) digits)
  · exact hread rfl (fun _ => rfl) (by decide) (search_replicate rfl (fun _ => rfl) digits)
  · exact hread rfl (fun _ => rfl) (by decide) (search_replicate rfl (fun _ => rfl) digits)

theorem urp_repeats (line : List Char) (digits : Nat) :
    search urpAt (line ++ ':' :: repeatsOption digits) = search urpAt line := by
  have hnone : search urpAt (repeatsOption digits) = none := search_replicate rfl (fun _ => rfl) digits
  rw [search_colon rfl (fun _ => rfl) urpAt_colon, hnone, Option.or_none]

theorem familyOf_colon (line rest : List Char) : familyOf (line ++ ':' :: rest) = familyOf line := by
  have hplain : ∀ family ∈ supportedFamilies, ':' ∉ family.toList := by decide
  exact List.find?_congr fun family hfamily => isPrefixOf_colon (hplain family hfamily) line rest

theorem last_separator (h : ∃ c ∈ line, p c = true) : ∃ front sep last, line = front ++ sep :: last ∧ p sep = true ∧
    ∀ c ∈ last, p c = false := by
  induction line with
  | nil =>
      obtain ⟨c, hc, -⟩ := h
      exact absurd hc List.not_mem_nil
  | cons c line ih =>
      by_cases hline : ∃ d ∈ line, p d = true
      · obtain ⟨front, sep, last, rfl, hsep, hlast⟩ := ih hline
        exact ⟨c :: front, sep, last, rfl, hsep, hlast⟩
      · have hplain : ∀ d ∈ line, p d = false := fun d hd => Bool.eq_false_iff.mpr fun hp => hline ⟨d, hd, hp⟩
        obtain ⟨d, hd, hp⟩ := h
        rcases List.mem_cons.mp hd with rfl | hd
        · exact ⟨[], d, line, rfl, hp, hplain⟩
        · exact absurd ⟨d, hd, hp⟩ hline

/-- Everything behind the last separator belongs to the last part. -/
theorem splitOnP_last (p : Char → Bool) (line : List Char) : ∃ front last, line.splitOnP p = front ++ [last] ∧
    last <:+ line ∧ ∀ tail, (∀ c ∈ tail, p c = false) → (line ++ tail).splitOnP p = front ++ [last ++ tail] := by
  by_cases hsep : ∃ c ∈ line, p c = true
  · obtain ⟨front, sep, last, rfl, hp, hplain⟩ := last_separator hsep
    refine ⟨front.splitOnP p, last, ?_, ⟨front ++ [sep], by rw [List.append_assoc]; rfl⟩, fun tail htail => ?_⟩
    · rw [List.splitOnP_append_cons _ _ hp, List.splitOnP_eq_singleton hplain]
    · have hall : ∀ c ∈ last ++ tail, p c = false := fun c hc => (List.mem_append.mp hc).elim (hplain c) (htail c)
      rw [List.append_assoc, List.cons_append, List.splitOnP_append_cons _ _ hp, List.splitOnP_eq_singleton hall]
  · have hplain : ∀ c ∈ line, p c = false := fun c hc => Bool.eq_false_iff.mpr fun hp => hsep ⟨c, hc, hp⟩
    refine ⟨[], line, List.splitOnP_eq_singleton hplain, List.suffix_rfl, fun tail htail => ?_⟩
    exact List.splitOnP_eq_singleton fun c hc => (List.mem_append.mp hc).elim (hplain c) (htail c)

def rowUnmapped (row : List Char) : Bool := ((row.splitOn ':').filterMap segmentName).any isUnmapped

theorem hasUnmappedFooling_eq (line : List Char) :
    hasUnmappedFooling line = (line.splitOnP isLineBreak).any (fun row => rowUnmapped (strip row)) := by
  rw [hasUnmappedFooling, desyncOptionNames, rows, List.any_flatMap, List.any_filter, List.any_map]
  congr 1
  funext row
  by_cases hnil : strip row = []
  · rw [Function.comp_apply, hnil]
    rfl
  · rw [Function.comp_apply, decide_eq_true hnil, Bool.true_and, rowUnmapped]

theorem repeats_chars {digits : Nat} {c : Char} (h : c ∈ repeatsOption digits) : c ∈ "repeats=1".toList := by
  rcases List.mem_append.mp h with h | h
  · exact List.IsPrefix.subset ⟨"1".toList, rfl⟩ h
  · rw [List.eq_of_mem_replicate h]
    decide

theorem repeats_last (digits : Nat) : ∀ c ∈ (repeatsOption digits).getLast?, isSpace c = false := by
  intro c hc
  exact forall_mem_of_all (by decide) c (repeats_chars (List.mem_of_getLast? hc))

theorem repeats_length (digits : Nat) : (repeatsOption digits).length = 8 + digits :=
  List.length_append.trans (congrArg (8 + ·) List.length_replicate)

theorem repeats_other (digits : Nat) : startsWith (repeatsOption digits) "pos=" = false := rfl

theorem repeats_strip (digits : Nat) : strip (repeatsOption digits) = repeatsOption digits :=
  strip_eq_self (fun c hc => by rw [← Option.some.inj hc]; decide) (repeats_last digits)

theorem repeats_plain (hcolon : p ':' = false) (hp : "repeats=1".toList.all (fun c => p c == false) = true)
    (digits : Nat) :
    ∀ c ∈ ':' :: repeatsOption digits, p c = false := by
  refine List.forall_mem_cons.mpr ⟨hcolon, fun c hc => ?_⟩
  exact forall_mem_of_all hp c (repeats_chars hc)

theorem segmentName_repeats (digits : Nat) : segmentName (repeatsOption digits) = some "repeats" := by
  have hlower : (repeatsOption digits).map Char.toLower = repeatsOption digits := by
    have hall : "repeats=1".toList.all (fun c => c.toLower == id c) = true := by decide
    exact (List.map_congr_left fun c hc => eq_of_beq (List.all_eq_true.mp hall c (repeats_chars hc))).trans
      (List.map_id _)
  have hname : (repeatsOption digits).takeWhile (· ≠ '=') = "repeats".toList := rfl
  have hne : repeatsOption digits ≠ [] := List.cons_ne_nil _ _
  rw [segmentName, repeats_strip, hlower, if_neg hne, hname]
  rfl

theorem suffix_end (hlast : ∀ c ∈ line.getLast?, isSpace c = false) (h : tail <:+ line) :
    tail.getLast?.any isSpace = false := by
  obtain ⟨front, rfl⟩ := h
  by_cases hnil : tail = []
  · rw [hnil]
    rfl
  · rw [List.getLast?_append_of_ne_nil _ hnil] at hlast
    cases hend : tail.getLast? with
    | none => rfl
    | some c => exact hlast c hend

/-- A repeats option does not count as a fooling. -/
theorem unmapped_repeats (hlast : ∀ c ∈ line.getLast?, isSpace c = false) (digits : Nat) :
    hasUnmappedFooling (line ++ ':' :: repeatsOption digits) = hasUnmappedFooling line := by
  obtain ⟨front, last, hsplit, hsuffix, happend⟩ := splitOnP_last isLineBreak line
  have hrow : strip last = last.dropWhile isSpace :=
    stripEnd_eq_self (suffix_end hlast ((List.dropWhile_suffix isSpace).trans hsuffix))
  have hrepeats : stripEnd (repeatsOption digits) = repeatsOption digits :=
    stripEnd_eq_self (suffix_end (repeats_last digits) List.suffix_rfl)
  have hname : rowUnmapped (strip (last ++ ':' :: repeatsOption digits)) = rowUnmapped (strip last) := by
    have hplain : ':' ∉ repeatsOption digits := fun h => absurd (repeats_chars h) (by decide)
    rw [strip_colon, hrepeats, hrow, rowUnmapped, List.splitOn_append_cons_self, List.splitOn_eq_singleton hplain,
      List.filterMap_append, List.any_append, List.filterMap_cons_some (segmentName_repeats digits), rowUnmapped]
    exact Bool.or_false _
  rw [hasUnmappedFooling_eq, hasUnmappedFooling_eq, happend _ (repeats_plain (by decide) (by decide) digits), hsplit,
    List.any_append, List.any_append, List.any_cons, List.any_cons, hname]

end appended

section main

variable {blobPath : String → Option String} {strategy other : String} {argv argv' : List String}

/-- The text with a repeats option behind it. -/
def withRepeats (strategy : String) : String :=
  String.ofList (strip strategy.toList ++ ':' :: repeatsOption (strip strategy.toList).length)

theorem strip_withRepeats (strategy : String) (hne : strip strategy.toList ≠ []) : strip (withRepeats strategy).toList =
    strip strategy.toList ++ ':' :: repeatsOption (strip strategy.toList).length := by
  rw [withRepeats, String.toList_ofList]
  refine strip_eq_self (fun c hc => ?_) (fun c hc => ?_)
  · rw [List.head?_append_of_ne_nil _ hne] at hc
    exact strip_head _ c hc
  · rw [List.getLast?_append_of_ne_nil _ (List.cons_ne_nil _ _)] at hc
    exact repeats_last _ c hc

theorem readFamily_repeats (line : List Char) (digits : Nat) :
    readFamily blobPath (line ++ ':' :: repeatsOption digits) = readFamily blobPath line := by
  funext family
  rw [readFamily, readFamily, urp_repeats, firstMatch_repeats (by decide) (by decide),
    firstMatch_repeats (by decide) (by decide), firstMatch_repeats (by decide) (by decide)]

/-- A full translation does not show how often the option asks for a repeat. -/
theorem fullArgv_repeats (h : FullArgv blobPath strategy argv) : FullArgv blobPath (withRepeats strategy) argv := by
  obtain ⟨hne, hmapped, reading, hreading, hfull⟩ := fullArgv_iff.mp h
  rw [fullArgv_iff, strip_withRepeats strategy hne, unmapped_repeats (strip_last _)]
  refine ⟨List.append_ne_nil_of_left_ne_nil hne _, hmapped, reading, ?_, hfull⟩
  rw [readingOf, strip_withRepeats strategy hne, familyOf_colon, readFamily_repeats]
  exact hreading

def TextOption.text : TextOption → List Char
  | .position pos => pos
  | .plain option => option
  | .core text => text

theorem part_length {text part : List Char} {sep : Char} (h : part ∈ text.splitOn sep) : part.length ≤ text.length := by
  rw [List.splitOn_eq_splitOnP] at h
  have hflatten := TextFile.flatten_splitOnP text (· == sep)
  have hsub := List.sublist_flatten_of_mem h
  rw [hflatten] at hsub
  exact hsub.length_le.trans (List.length_filter_le _ _)

/-- An option of a text is not longer than the text. -/
theorem option_length {option : TextOption} (h : option ∈ textOptions strategy) :
    option.text.length ≤ (strip strategy.toList).length := by
  rw [textOptions] at h
  generalize strip strategy.toList = line at h ⊢
  rcases List.mem_append.mp h with h | h
  · obtain ⟨segment, hsegment, hoption⟩ := List.mem_flatMap.mp h
    have hcore : (line.splitOn '\n').headD [] ∈ line.splitOn '\n' := by
      cases hlines : line.splitOn '\n' with
      | nil => exact absurd hlines (List.splitOn_ne_nil _ _)
      | cons core lines => exact List.mem_cons_self
    have hle := (part_length (List.mem_of_mem_tail hsegment)).trans (part_length hcore)
    split at hoption
    next =>
      obtain ⟨pos, hpos, rfl⟩ := List.mem_map.mp hoption
      refine (part_length hpos).trans (le_trans ?_ hle)
      rw [List.length_drop]
      exact Nat.sub_le _ _
    next =>
      rw [List.mem_singleton.mp hoption]
      exact hle
  · obtain ⟨text, htext, rfl⟩ := List.mem_map.mp h
    obtain ⟨row, hrow, rfl⟩ := List.mem_map.mp (List.mem_filter.mp htext).1
    exact (infix_strip row).length_le.trans (part_length (List.mem_of_mem_tail hrow))

theorem differ_repeats (hne : strip strategy.toList ≠ []) : Differ strategy (withRepeats strategy) := by
  have hlong : ∃ option ∈ textOptions (withRepeats strategy), (strip strategy.toList).length < option.text.length := by
    rw [textOptions, strip_withRepeats strategy hne]
    generalize strip strategy.toList = line
    obtain ⟨front, last, hsplit, -, happend⟩ := splitOnP_last (· == '\n') line
    have hlines := happend _ (repeats_plain (by decide) (by decide) line.length)
    rw [← List.splitOn_eq_splitOnP] at hsplit hlines
    have hlength : line.length < (repeatsOption line.length).length := by
      rw [repeats_length]
      exact Nat.lt_add_of_pos_left (by decide)
    rw [hlines]
    cases front with
    | nil =>
        -- The option joins the first core.
        have hplain : ':' ∉ repeatsOption line.length := fun h => absurd (repeats_chars h) (by decide)
        have hsegment : repeatsOption line.length ∈ ((last ++ ':' :: repeatsOption line.length).splitOn ':').tail := by
          rw [List.splitOn_append_cons_self, List.splitOn_eq_singleton hplain,
            List.tail_append_of_ne_nil (List.splitOn_ne_nil _ _)]
          exact List.mem_append_right _ List.mem_cons_self
        refine ⟨.plain (repeatsOption line.length), List.mem_append_left _ (List.mem_flatMap.mpr ⟨_, hsegment, ?_⟩), ?_⟩
        · rw [repeats_other, if_neg Bool.false_ne_true]
          exact List.mem_cons_self
        · rw [TextOption.text]
          exact hlength
    | cons core front =>
        -- It makes the last core another one.
        have hrow : strip (last ++ ':' :: repeatsOption line.length) =
            last.dropWhile isSpace ++ ':' :: repeatsOption line.length := by
          rw [strip_colon, stripEnd_eq_self (suffix_end (repeats_last _) List.suffix_rfl)]
        refine ⟨.core (strip (last ++ ':' :: repeatsOption line.length)), List.mem_append_right _
          (List.mem_map_of_mem (List.mem_filter.mpr ⟨List.mem_map_of_mem ?_, ?_⟩)), ?_⟩
        · exact List.mem_append_right _ List.mem_cons_self
        · rw [hrow]
          exact decide_eq_true (List.append_ne_nil_of_right_ne_nil _ (List.cons_ne_nil _ _))
        · rw [TextOption.text, hrow, List.length_append, List.length_cons]
          omega
  obtain ⟨option, hoption, hlength⟩ := hlong
  exact ⟨option, fun h => absurd (option_length (h.mpr hoption)) (Nat.not_le.mpr hlength)⟩

/-- A full translation is never the only one with its argv: it shows the family, the first
position, the file and the urgent byte, and nothing else of the text. -/
theorem full_never_lossless (blobPath : String → Option String) (strategy : String) (argv : List String)
    (h : FullArgv blobPath strategy argv) : ¬ Lossless blobPath strategy ∧
      ∀ other argv', FullArgv blobPath other argv' →
        (argv' = argv ↔ readingOf blobPath other = readingOf blobPath strategy) := by
  refine ⟨fun hlossless => ?_, fun other argv' hother => ?_⟩
  · exact hlossless (withRepeats strategy) (differ_repeats (fullArgv_iff.mp h).1) argv h (fullArgv_repeats h)
  · obtain ⟨-, -, reading, hreading, hfull, rfl⟩ := fullArgv_iff.mp h
    obtain ⟨-, -, reading', hreading', hfull', rfl⟩ := fullArgv_iff.mp hother
    rw [hreading, hreading', Option.some.injEq]
    exact ⟨argvOf_injective hfull' hfull, fun heq => congrArg argvOf heq⟩

theorem oob_not_lossless : ¬ Lossless (fun _ => none) "oob:urp=b" ∧
    ∀ other argv', FullArgv (fun _ => none) other argv' →
      (argv' = ["-o", "0"] ↔ readingOf (fun _ => none) other = readingOf (fun _ => none) "oob:urp=b") :=
  full_never_lossless (fun _ => none) "oob:urp=b" ["-o", "0"]
    ⟨⟨["-o", "0"], .translationFull, []⟩, by decide +kernel, rfl, rfl⟩

/-- Five repeats and none have one translation. -/
theorem repeats_lost : ¬ ∀ (blobPath : String → Option String) (strategy : String), Lossless blobPath strategy := by
  intro h
  have hdiffer : Differ "fakedsplit:pos=1:repeats=5" "fakedsplit:pos=1" := by
    refine ⟨.plain "repeats=5".toList, fun hiff => ?_⟩
    exact absurd (hiff.mp (by decide +kernel)) (by decide +kernel)
  refine h (fun _ => none) _ _ hdiffer ["--fake", "1", "--disorder", "1"] ?_ ?_
  · exact ⟨⟨["--fake", "1", "--disorder", "1"], .translationFull, []⟩, by decide +kernel, rfl, rfl⟩
  · exact ⟨⟨["--fake", "1", "--disorder", "1"], .translationFull, []⟩, by decide +kernel, rfl, rfl⟩

end main

end Blockchecks.ByedpiLoss
