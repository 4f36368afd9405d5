import Blockchecks.BatchConfBuild
import Blockchecks.JoinedText
import Blockchecks.KeeneticConf

namespace Blockchecks.KeeneticClosed

open StrategyText OrderedDict LuaConf NfqwsConfig ExportConf ExportFilter ConfRun Escaping ExportNumbers
  BatchConfBuild JoinedText BlobScan KeeneticConf

/-- What the desyncs of a conf refer to, component by component. -/
def references (args : KeeneticArgs) : List String :=
  ((args.lines.filter isDesyncLine).flatMap (fun line =>
    finditer exportReference (desyncValue line.toList))).flatMap components

def declares (name line : String) : Bool := startsWith line.toList ("--blob=" ++ name ++ ":")

def declaresFile (name line : String) : Bool := startsWith line.toList ("--blob=" ++ name ++ ":@")

def blobLine (pre name file : String) : String := "--blob=" ++ name ++ ":@" ++ pre ++ "/blobs/" ++ file

/-- The names that a strategy had for a blob before they were renamed. -/
def origins (strategy name : String) : List String :=
  let names := (extractBlobNames strategy).filter
    (fun orig => ((exportRenames strategy).get? orig).getD orig = name)
  if names = [] then [name] else names

section conf

variable (confText : List Char → Option (List Char)) (manifest : List (String × String))

/-- What the cores refer to that a strategy contributes to a conf. -/
def keptValues (strategy : String) : List String :=
  (keptCores confText strategy).flatMap (fun core => finditer exportReference core.text)

def keptBlobs (strategy : String) : List String := (keptValues confText strategy).flatMap components

/-- Its fragments of a command line. -/
def keptCli (strategy : String) : List ExportPart :=
  match keepExportStrategy confText (renameExportBlobs strategy) with
  | none => []
  | some kept => (strategyPartsForExport confText kept).filter isCli

/-- Every blob that a desync of the conf refers to is declared there once, under its
name and with the file of the name that the strategy had for it, and no hex literal is
declared as a file. -/
structure Closed (options : KeeneticOptions) (tcp udp quic : List String) (conf : KeeneticArgs) : Prop where
  declared : ∀ name ∈ references conf, isHexBlob name = false → name ∉ builtinBlobs →
    isIdentifier name = true ∧ (conf.lines.filter (declares name)).length = 1
  file : ∀ strategy ∈ tcp ++ udp ++ quicDefault quic, ∀ name ∈ keptBlobs confText strategy,
    isHexBlob name = false → name ∉ builtinBlobs → ∀ orig ∈ origins strategy name,
      ∀ line ∈ conf.lines, declares name line = true →
        ∃ file, blobExportFilename orig = some file ∧ line = blobLine options.pre name file
  hex : ∀ name ∈ references conf, isHexBlob name = true → ∀ line ∈ conf.lines, declaresFile name line = false

/-- The condition on a blob that a strategy of the lists refers to. -/
def Declarable (strategies : List String) (strategy name : String) : Prop :=
  if isHexBlob name then
    (name = "0x00000000" ∨ name ∉ (strategies.flatMap (keptValues confText)).map headName) ∧
      ∀ part ∈ strategies.flatMap (keptCli confText),
        startsWith part.text ("--blob=" ++ name ++ ":@") = false
  else name ∈ builtinBlobs ∨
    name ∈ (strategies.flatMap (keptValues confText)).map headName ∧
      (∀ key ∈ blobAliasMap.map Prod.fst, isIdentifier key = true → name ≠ "b" ++ key) ∧
      (∀ part ∈ strategies.flatMap (keptCli confText),
        startsWith part.text ("--blob=" ++ name ++ ":") = false) ∧
      ∀ orig ∈ origins strategy name, blobExportFilename orig = blobExportFilename name

section kept

variable {confText}

theorem keep_some {strategy kept : String} (h : keepExportStrategy confText strategy = some kept) :
    kept = strategy ∧ ∀ core ∈ exportCores confText kept, ∀ value ∈ finditer exportReference core.text,
      blobExportOk value = true := by
  obtain ⟨rfl, -, hok⟩ := (keep_iff strategy kept).mp h
  exact ⟨rfl, fun core hcore => (hok core hcore).2⟩

theorem keptCore_ok {strategy : String} {core : ExportPart} (hcore : core ∈ keptCores confText strategy) :
    isCli core = false ∧ ∀ value ∈ finditer exportReference core.text, blobExportOk value = true := by
  rw [keptCores] at hcore
  split at hcore
  next => exact absurd hcore List.not_mem_nil
  next hkeep => exact ⟨(Bool.not_eq_true' _).mp (List.mem_filter.mp hcore).2, (keep_some hkeep).2 core hcore⟩

theorem keptValue_ok {strategy value : String} (hvalue : value ∈ keptValues confText strategy) :
    blobExportOk value = true := by
  obtain ⟨core, hcore, hmem⟩ := List.mem_flatMap.mp hvalue
  exact (keptCore_ok hcore).2 value hmem

/-- What is gathered from the kept strategies. -/
theorem flatMap_kept {α : Type} (f : String → List α) (strategies : List String) :
    (filterExportStrategies confText strategies).flatMap f = strategies.flatMap (fun strategy =>
      (keepExportStrategy confText (renameExportBlobs strategy)).toList.flatMap f) := by
  induction strategies with
  | nil => rw [filterExportStrategies, List.filterMap_nil, List.flatMap_nil, List.flatMap_nil]
  | cons strategy strategies ih =>
      rw [filterExportStrategies, List.filterMap_cons, ← filterExportStrategies, List.flatMap_cons, ← ih]
      cases keepExportStrategy confText (renameExportBlobs strategy) with
      | none => rw [Option.toList_none, List.flatMap_nil, List.nil_append]
      | some kept => rw [Option.toList_some, List.flatMap_singleton, List.flatMap_cons]

theorem keptCores_eq (strategies : List String) :
    (filterExportStrategies confText strategies).flatMap (exportCores confText) =
      strategies.flatMap (keptCores confText) := by
  rw [flatMap_kept]
  refine congrArg (fun g => strategies.flatMap g) (funext fun strategy => ?_)
  rw [keptCores]
  cases keepExportStrategy confText (renameExportBlobs strategy) with
  | none => rw [Option.toList_none, List.flatMap_nil]
  | some kept => rw [Option.toList_some, List.flatMap_singleton]

theorem keptCli_eq (strategies : List String) :
    (filterExportStrategies confText strategies).flatMap (fun kept =>
        (strategyPartsForExport confText kept).filter isCli) = strategies.flatMap (keptCli confText) := by
  rw [flatMap_kept]
  refine congrArg (fun g => strategies.flatMap g) (funext fun strategy => ?_)
  rw [keptCli]
  cases keepExportStrategy confText (renameExportBlobs strategy) with
  | none => rw [Option.toList_none, List.flatMap_nil]
  | some kept => rw [Option.toList_some, List.flatMap_singleton]

/-- No equals sign and nothing to escape is in a value of a core that is kept. -/
theorem plain_value {value : String} (hok : blobExportOk value = true) {c : Char} (hword : isWordChar c = false)
    (hplus : c ≠ '+') : c ∉ value.toList := by
  intro hc
  rcases value_chars hok hc with h | h
  · exact hplus h
  · rw [hword] at h
    exact Bool.noConfusion h

theorem coreNames_eq {strategy : String} {core : ExportPart} (hcore : core ∈ keptCores confText strategy) :
    finditer blobReference core.text =
      ((finditer exportReference core.text).map headName).filter (fun name => name ≠ "") :=
  names_eq (fun value hvalue => plain_value ((keptCore_ok hcore).2 value hvalue) rfl (by decide))

theorem exportBlobNames_eq (strategies : List String) :
    exportBlobNames confText (filterExportStrategies confText strategies) =
      addAll [] ((((strategies.flatMap (keptValues confText)).map headName).filter (fun name => name ≠ "")).filter
        (· ≠ "0x00000000")) := by
  have hcores : ((strategies.flatMap (keptCores confText)).flatMap (fun core => finditer blobReference core.text)) =
      ((strategies.flatMap (keptValues confText)).map headName).filter (fun name => name ≠ "") := by
    rw [List.flatMap_assoc, List.map_flatMap, List.filter_flatMap]
    refine List.flatMap_congr (fun strategy _ => ?_)
    rw [keptValues, List.map_flatMap, List.filter_flatMap]
    exact List.flatMap_congr (fun core hcore => coreNames_eq hcore)
  rw [exportBlobNames, flattenExportStrategies, keptCores_eq, List.flatMap_map, ← hcores]
  simp only [String.toList_ofList]

end kept

theorem declares_blobLine {pre name ident file : String} (hname : ':' ∉ name.toList) (hident : ':' ∉ ident.toList) :
    declares name (blobLine pre ident file) = true ↔ ident = name := by
  have hneedle : ("--blob=" ++ name ++ ":").toList = "--blob=".toList ++ (name.toList ++ [':']) := by
    rw [String.toList_append, String.toList_append, List.append_assoc]
    rfl
  have hline : (blobLine pre ident file).toList =
      "--blob=".toList ++ (ident.toList ++ ':' :: ("@" ++ pre ++ "/blobs/" ++ file).toList) := by
    rw [blobLine]
    simp only [String.toList_append, List.append_assoc]
    rfl
  rw [declares, startsWith, List.isPrefixOf_iff_prefix, hneedle, hline, List.prefix_append_right_inj]
  constructor
  · rintro ⟨rest, hrest⟩
    rw [List.append_assoc, List.singleton_append] at hrest
    refine (String.toList_inj.mp (append_sep_inj hrest ?_).1).symm
    rw [List.count_eq_zero_of_not_mem hname, List.count_eq_zero_of_not_mem hident]
  · rintro rfl
    exact ⟨("@" ++ pre ++ "/blobs/" ++ file).toList, by rw [List.append_assoc, List.singleton_append]⟩

/-- The lines of a conf that hold no blob and no reference. -/
def Neutral (line : String) : Prop :=
  startsWith line.toList "--blob=" = false ∧
    (isDesyncLine line = true → finditer exportReference (desyncValue line.toList) = [])

theorem startsWith_clashes {text option : String} (h : clashes text.toList option.toList = true) (rest : String) :
    startsWith (text ++ rest).toList option = false := by
  rw [String.toList_append]
  exact not_isPrefixOf_of_clashes h rest.toList

theorem neutral_clashes {text : String} (hblob : clashes text.toList "--blob=".toList = true)
    (hdesync : clashes text.toList "--lua-desync=".toList = true) (rest : String) : Neutral (text ++ rest) := by
  refine ⟨startsWith_clashes hblob rest, fun h => ?_⟩
  rw [isDesyncLine, startsWith_clashes hdesync] at h
  exact Bool.noConfusion h

instance decidableNeutral (line : String) : Decidable (Neutral line) :=
  inferInstanceAs (Decidable (_ ∧ (_ → _)))

theorem lines_perm (lua blobs ipset first circular desyncs last quic desyncs' udp circular' desyncs'' : List String) :
    ((lua ++ blobs ++ ipset) ++ (first ++ circular ++ desyncs ++ last) ++ (quic ++ desyncs') ++
        (udp ++ circular' ++ desyncs'')).Perm
      (blobs ++ (desyncs ++ (desyncs'' ++ desyncs')) ++
        (lua ++ (ipset ++ (first ++ (circular ++ (last ++ (quic ++ (udp ++ circular')))))))) := by
  refine List.perm_iff_count.mpr (fun line => ?_)
  simp only [List.count_append]
  omega

theorem neutral_luaInit (pre : String) (extra : List String) :
    ∀ line ∈ keeneticLuaInitLines pre extra, Neutral line := by
  intro line hline
  obtain ⟨name, -, rfl⟩ := List.mem_map.mp hline
  rw [String.append_assoc, String.append_assoc]
  exact neutral_clashes (by decide) (by decide) _

theorem neutral_ipset (options : KeeneticOptions) : ∀ line ∈ ipsetPart options, Neutral line := by
  rw [ipsetPart]
  split
  · rw [List.forall_mem_singleton, String.append_assoc]
    exact neutral_clashes (by decide) (by decide) _
  · split
    · exact List.forall_mem_nil _
    · rw [List.forall_mem_singleton]
      exact neutral_clashes (by decide) (by decide) _

theorem exists_lines (options : KeeneticOptions) (tcp udp quic : List String) :
    ∃ rest, (∀ line ∈ rest, Neutral line) ∧
      (buildKeeneticConf confText manifest options tcp udp quic).lines.Perm
        ((exportBlobNames confText (filterExportStrategies confText (tcp ++ udp ++ quicDefault quic))).filterMap
            (fun name => blobExportCliLine name options.pre) ++
          (desyncCliLines confText (filterExportStrategies confText tcp) ++
            (desyncCliLines confText (filterExportStrategies confText udp) ++
              desyncCliLines confText (filterExportStrategies confText (quicDefault quic)))) ++ rest) := by
  have hfilter : filterExportStrategies confText (tcp ++ udp ++ quicDefault quic) =
      filterExportStrategies confText tcp ++ filterExportStrategies confText udp ++
        filterExportStrategies confText (quicDefault quic) := by
    rw [filterExportStrategies, List.filterMap_append, List.filterMap_append]
    rfl
  rw [hfilter, KeeneticArgs.lines, buildKeeneticConf]
  refine ⟨_, ?_, lines_perm _ _ _ _ _ _ _ _ _ _ _ _⟩
  simp only [List.forall_mem_append]
  refine ⟨neutral_luaInit _ _, neutral_ipset _, by decide +kernel, ?_, by decide +kernel, by decide +kernel,
    by decide +kernel, ?_⟩
  · split
    · exact List.forall_mem_nil _
    · decide +kernel
  · split
    · exact List.forall_mem_nil _
    · decide +kernel

/-- A desync line of an export refers to what its core refers to. -/
theorem lineValues {core : ExportPart} (n : Nat) (hcli : isCli core = false)
    (hok : ∀ value ∈ finditer exportReference core.text, blobExportOk value = true) :
    finditer exportReference (desyncValue (exportLine n core).toList) = finditer exportReference core.text := by
  change startsWith core.text "--" = false at hcli
  rw [exportLine, if_neg (Bool.eq_false_iff.mp hcli), String.toList_ofList, desyncValue, List.drop_left,
    sanitizeArgForConf]
  have hescape := finditer_escape (ensureStrategyN core.text n)
  rw [finditer_ensure] at hescape
  refine hescape.trans ((List.map_congr_left (fun value hvalue => ?_)).trans (List.map_id _))
  have hlt := plain_value (hok value hvalue) (c := '<') (by decide) (by decide)
  rw [escapeConfLt_eq, escape_eq_self hlt, String.ofList_toList, id]

theorem desyncValues_eq (strategies : List String) :
    ((desyncCliLines confText (filterExportStrategies confText strategies)).filter isDesyncLine).flatMap
      (fun line => finditer exportReference (desyncValue line.toList)) =
      strategies.flatMap (keptValues confText) := by
  have hlines : ∀ p ∈ (filterExportStrategies confText strategies).zipIdx 1,
      ((exportCores confText p.1).map (exportLine p.2)).flatMap
          (fun line => finditer exportReference (desyncValue line.toList)) =
        (exportCores confText p.1).flatMap (fun core => finditer exportReference core.text) := by
    intro p hp
    obtain ⟨strategy, -, hkeep⟩ := List.mem_filterMap.mp (List.fst_mem_of_mem_zipIdx hp)
    rw [List.flatMap_map]
    refine List.flatMap_congr (fun core hcore => lineValues p.2 ?_ ((keep_some hkeep).2 core hcore))
    exact (Bool.not_eq_true' _).mp (List.mem_filter.mp hcore).2
  rw [desyncLines_eq, List.flatMap_assoc, List.flatMap_congr hlines,
    ← List.flatMap_map Prod.fst (fun kept => (exportCores confText kept).flatMap (fun core =>
      finditer exportReference core.text)), List.zipIdx_map_fst, ← List.flatMap_assoc, keptCores_eq, List.flatMap_assoc]
  rfl

theorem mem_blobParts {names : List String} {pre line : String} :
    line ∈ names.filterMap (fun name => blobExportCliLine name pre) ↔
      ∃ name ∈ names, ∃ file, blobExportFilename name = some file ∧ line = blobLine pre (exportIdent name) file := by
  rw [List.mem_filterMap]
  refine exists_congr (fun name => and_congr_right fun _ => ?_)
  rw [blobExportCliLine, Option.map_eq_some_iff]
  exact exists_congr (fun file => and_congr_right fun _ => eq_comm)

theorem isDesyncLine_blobLine (pre name file : String) : isDesyncLine (blobLine pre name file) = false := by
  rw [blobLine, String.append_assoc, String.append_assoc, String.append_assoc, String.append_assoc]
  exact startsWith_clashes (by decide) _

theorem mem_references (options : KeeneticOptions) (tcp udp quic : List String) (name : String) :
    name ∈ references (buildKeeneticConf confText manifest options tcp udp quic) ↔
      ∃ strategy ∈ tcp ++ udp ++ quicDefault quic, name ∈ keptBlobs confText strategy := by
  obtain ⟨rest, hrest, hperm⟩ := exists_lines confText manifest options tcp udp quic
  rw [references, (((hperm.filter _).flatMap_right _).flatMap_right _).mem_iff]
  have hblobs : ((exportBlobNames confText (filterExportStrategies confText
      (tcp ++ udp ++ quicDefault quic))).filterMap (fun name => blobExportCliLine name options.pre)).filter
        isDesyncLine = [] := by
    refine List.filter_eq_nil_iff.mpr (fun line hline => ?_)
    obtain ⟨blob, -, file, -, rfl⟩ := mem_blobParts.mp hline
    rw [isDesyncLine_blobLine]
    exact Bool.false_ne_true
  have hneutral : (rest.filter isDesyncLine).flatMap (fun line =>
      finditer exportReference (desyncValue line.toList)) = [] := by
    refine List.flatMap_eq_nil_iff.mpr (fun line hline => ?_)
    obtain ⟨hline, hdesync⟩ := List.mem_filter.mp hline
    exact (hrest line hline).2 hdesync
  simp only [List.filter_append, List.flatMap_append, hblobs, hneutral, desyncValues_eq, List.nil_append,
    List.append_nil]
  rw [← List.flatMap_append, ← List.flatMap_append, ← List.flatMap_append, ← List.flatMap_append, List.flatMap_assoc,
    List.mem_flatMap, List.append_assoc]
  rfl

theorem startsWith_blob {text : List Char} {option : String} (h : startsWith text ("--blob=" ++ option) = true) :
    startsWith text "--blob=" = true := by
  rw [startsWith, List.isPrefixOf_iff_prefix, String.toList_append] at h
  rw [startsWith, List.isPrefixOf_iff_prefix]
  exact (List.prefix_append _ _).trans h

/-- Only a fragment of a command line begins a line of an export with a blob. -/
theorem startsWith_exportLine (n : Nat) (part : ExportPart) {option : String} (hescape : '\\' ∉ option.toList)
    (hlt : '<' ∉ option.toList) : startsWith (exportLine n part).toList ("--blob=" ++ option) =
      (isCli part && startsWith part.text ("--blob=" ++ option)) := by
  rw [exportLine, isCli]
  split
  next hcli =>
    have hneedle : '\\' ∉ ("--blob=" ++ option).toList ∧ '<' ∉ ("--blob=" ++ option).toList := by
      rw [String.toList_append, List.mem_append, List.mem_append, not_or, not_or]
      exact ⟨⟨by decide, hescape⟩, by decide, hlt⟩
    rw [hcli, Bool.true_and, String.toList_ofList, startsWith, sanitizeArgForConf,
      isPrefixOf_escape hneedle.1 hneedle.2, startsWith]
  next hcli =>
    rw [Bool.eq_false_iff.mpr hcli, Bool.false_and, Bool.eq_false_iff, String.toList_ofList]
    intro h
    exact absurd (startsWith_blob h) (by
      rw [startsWith, not_isPrefixOf_of_clashes (by decide)]
      exact Bool.false_ne_true)

section lines

variable {confText}

theorem mem_exportLines {strategies : List String} {line : String} :
    line ∈ desyncCliLines confText (filterExportStrategies confText strategies) ↔
      ∃ p ∈ (filterExportStrategies confText strategies).zipIdx 1,
        ∃ part ∈ strategyPartsForExport confText p.1, line = exportLine p.2 part := by
  rw [desyncCliLines, List.mem_flatMap]
  refine exists_congr (fun p => and_congr_right fun _ => ?_)
  rw [List.mem_map]
  exact exists_congr (fun part => and_congr_right fun _ => eq_comm)

/-- A blob line of an export is a fragment of a strategy's command line. -/
theorem cli_of_line {strategies : List String} {line option : String} (hescape : '\\' ∉ option.toList)
    (hlt : '<' ∉ option.toList) (hline : line ∈ desyncCliLines confText (filterExportStrategies confText strategies))
    (hstarts : startsWith line.toList ("--blob=" ++ option) = true) : '/' ∉ line.toList ∧
      ∃ part ∈ strategies.flatMap (keptCli confText), startsWith part.text ("--blob=" ++ option) = true := by
  obtain ⟨p, hp, part, hpart, rfl⟩ := mem_exportLines.mp hline
  rw [startsWith_exportLine _ _ hescape hlt, Bool.and_eq_true] at hstarts
  constructor
  · have hcli : startsWith part.text "--" = true := hstarts.1
    rw [exportLine, if_pos hcli, String.toList_ofList]
    intro hslash
    obtain ⟨c, hc, hmem⟩ := List.mem_flatMap.mp hslash
    split at hmem
    next => exact absurd hmem (by decide)
    next =>
      rw [← List.mem_singleton.mp hmem] at hc
      exact (parts_cli hpart hstarts.1).2 hc
  · refine ⟨part, ?_, hstarts.2⟩
    rw [← keptCli_eq]
    exact List.mem_flatMap.mpr ⟨p.1, List.fst_mem_of_mem_zipIdx hp, List.mem_filter.mpr ⟨hpart, hstarts.1⟩⟩

theorem line_of_cli {strategies : List String} {option : String} (hescape : '\\' ∉ option.toList)
    (hlt : '<' ∉ option.toList) {part : ExportPart} (hpart : part ∈ strategies.flatMap (keptCli confText))
    (hstarts : startsWith part.text ("--blob=" ++ option) = true) :
    ∃ line ∈ desyncCliLines confText (filterExportStrategies confText strategies),
      startsWith line.toList ("--blob=" ++ option) = true := by
  rw [← keptCli_eq] at hpart
  obtain ⟨kept, hkept, hmem⟩ := List.mem_flatMap.mp hpart
  obtain ⟨hpart, hcli⟩ := List.mem_filter.mp hmem
  rw [← List.zipIdx_map_fst 1 (filterExportStrategies confText strategies)] at hkept
  obtain ⟨p, hp, rfl⟩ := List.mem_map.mp hkept
  refine ⟨exportLine p.2 part, mem_exportLines.mpr ⟨p, hp, part, hpart, rfl⟩, ?_⟩
  rw [startsWith_exportLine _ _ hescape hlt, hcli, hstarts]
  rfl

end lines

theorem lookup_isSome {name : String} :
    (blobAliasMap.lookup name).isSome = true ↔ name ∈ blobAliasMap.map Prod.fst := by
  rw [List.lookup_isSome_iff, List.mem_map]
  refine exists_congr (fun entry => and_congr_right fun _ => ?_)
  rw [beq_iff_eq, eq_comm]

/-- The b-form of an alias, or a name of its own. -/
theorem origName_cases (name : String) :
    origName name = name ∨ origName name ∈ blobAliasMap.map Prod.fst ∧ name = "b" ++ origName name := by
  rw [origName]
  split
  next rest heq =>
    split
    next halias =>
      refine Or.inr ⟨lookup_isSome.mp halias, String.toList_inj.mp ?_⟩
      rw [heq, String.toList_append]
      exact congrArg ('b' :: ·) String.toList_ofList.symm
    next => exact Or.inl rfl
  next => exact Or.inl rfl

theorem key_head : ∀ key ∈ blobAliasMap.map Prod.fst, key.toList.head? ≠ some 'b' ∧ isHexBlob key = false ∧
    ':' ∉ key.toList := by
  decide +kernel

theorem toList_b (key : String) : ("b" ++ key).toList = 'b' :: key.toList := by
  rw [String.toList_append]
  rfl

theorem origName_key {key : String} (h : key ∈ blobAliasMap.map Prod.fst) : origName key = key := by
  rcases origName_cases key with hself | ⟨-, hb⟩
  · exact hself
  · have hhead := (key_head key h).1
    rw [hb, toList_b] at hhead
    exact absurd rfl hhead

theorem origName_b {key : String} (h : key ∈ blobAliasMap.map Prod.fst) : origName ("b" ++ key) = key := by
  rw [origName, toList_b]
  change (if (blobAliasMap.lookup (String.ofList key.toList)).isSome then String.ofList key.toList else _) = key
  rw [String.ofList_toList, if_pos (lookup_isSome.mpr h)]

theorem exportIdent_of_orig {name : String} (h : origName name ∈ blobAliasMap.map Prod.fst) :
    exportIdent name = safeBlobName (origName name) := by
  rw [exportIdent, if_pos (lookup_isSome.mpr h)]

theorem exportIdent_cases (name : String) :
    exportIdent name = name ∨ ∃ key ∈ blobAliasMap.map Prod.fst, exportIdent name = safeBlobName key := by
  rw [exportIdent]
  split
  next halias => exact Or.inr ⟨_, lookup_isSome.mp halias, rfl⟩
  next => exact Or.inl rfl

theorem exportIdent_safe {key : String} (h : key ∈ blobAliasMap.map Prod.fst) :
    exportIdent (safeBlobName key) = safeBlobName key := by
  by_cases hident : isIdentifier key = true
  · have hsafe : safeBlobName key = key := by rw [safeBlobName, if_pos hident]
    rw [hsafe, exportIdent_of_orig (by rwa [origName_key h]), origName_key h, hsafe]
  · have hsafe : safeBlobName key = "b" ++ key := by rw [safeBlobName, if_neg hident]
    rw [hsafe, exportIdent_of_orig (by rwa [origName_b h]), origName_b h, hsafe]

theorem exportIdent_idem (name : String) : exportIdent (exportIdent name) = exportIdent name := by
  rcases exportIdent_cases name with h | ⟨key, hkey, h⟩
  · rw [h, h]
  · rw [h, exportIdent_safe hkey]

theorem isHexBlob_b (key : String) : isHexBlob ("b" ++ key) = false := by
  rw [isHexBlob, toList_b]
  rfl

theorem exportIdent_hex {name : String} (h : isHexBlob (exportIdent name) = true) : exportIdent name = name := by
  rcases exportIdent_cases name with hself | ⟨key, hkey, hkey'⟩
  · exact hself
  · rw [hkey', safeBlobName] at h
    split at h
    next =>
      rw [(key_head key hkey).2.1] at h
      exact Bool.noConfusion h
    next =>
      rw [isHexBlob_b] at h
      exact Bool.noConfusion h

theorem exportIdent_of_hex {name : String} (h : isHexBlob name = true) : exportIdent name = name := by
  rcases origName_cases name with hself | ⟨hkey, hname⟩
  · rw [exportIdent, hself]
    split
    next halias =>
      rw [(key_head name (lookup_isSome.mp halias)).2.1] at h
      exact Bool.noConfusion h
    next => rfl
  · rw [hname, isHexBlob_b] at h
    exact Bool.noConfusion h

theorem exportIdent_colon {name : String} (h : ':' ∉ name.toList) : ':' ∉ (exportIdent name).toList := by
  rcases exportIdent_cases name with hself | ⟨key, hkey, hkey'⟩
  · rwa [hself]
  · rw [hkey', safeBlobName]
    split
    next => exact (key_head key hkey).2.2
    next =>
      rw [toList_b, List.mem_cons, not_or]
      exact ⟨by decide, (key_head key hkey).2.2⟩

theorem exportIdent_self_iff {name : String} (h : isIdentifier name = true) : exportIdent name = name ↔
    ∀ key ∈ blobAliasMap.map Prod.fst, isIdentifier key = true → name ≠ "b" ++ key := by
  constructor
  · rintro hself key hkey hident rfl
    rw [exportIdent_of_orig (by rwa [origName_b hkey]), origName_b hkey, safeBlobName, if_pos hident] at hself
    have hlength := congrArg (fun s : String => s.toList.length) hself
    rw [toList_b, List.length_cons] at hlength
    omega
  · intro hnot
    rcases origName_cases name with hself | ⟨hkey, hname⟩
    · rw [exportIdent, hself]
      split
      next => rw [safeBlobName, if_pos h]
      next => rfl
    · have hident : ¬ isIdentifier (origName name) = true := fun hident => hnot _ hkey hident hname
      rw [exportIdent_of_orig hkey, safeBlobName, if_neg hident, ← hname]

section names

variable {confText}

theorem mem_names {strategies : List String} {name : String} :
    name ∈ exportBlobNames confText (filterExportStrategies confText strategies) ↔
      name ∈ (strategies.flatMap (keptValues confText)).map headName ∧ name ≠ "" ∧ name ≠ "0x00000000" := by
  rw [exportBlobNames_eq, mem_addAll, List.mem_filter, List.mem_filter, decide_eq_true_eq, decide_eq_true_eq,
    and_assoc]
  exact or_iff_right List.not_mem_nil

theorem kept_of_name {strategies : List String} {name : String}
    (h : name ∈ exportBlobNames confText (filterExportStrategies confText strategies)) :
    ∃ strategy ∈ strategies, name ∈ keptBlobs confText strategy := by
  obtain ⟨hhead, hne, -⟩ := mem_names.mp h
  obtain ⟨value, hvalue, rfl⟩ := List.mem_map.mp hhead
  obtain ⟨strategy, hstrategy, hmem⟩ := List.mem_flatMap.mp hvalue
  exact ⟨strategy, hstrategy, List.mem_flatMap.mpr ⟨value, hmem, headName_component (keptValue_ok hmem) hne⟩⟩

theorem kept_chars {strategy name : String} (h : name ∈ keptBlobs confText strategy) :
    (isIdentifier name || isHexBlob name) = true ∧ ∀ c ∈ name.toList, isWordChar c = true := by
  obtain ⟨value, hvalue, hname⟩ := List.mem_flatMap.mp h
  have hok := component_ok (keptValue_ok hvalue) hname
  exact ⟨hok, word_of_component hok⟩

theorem kept_plain {strategy name : String} (h : name ∈ keptBlobs confText strategy) {c : Char}
    (hc : isWordChar c = false) : c ∉ name.toList := fun hmem => by
  have hword := (kept_chars h).2 c hmem
  rw [hc] at hword
  exact Bool.noConfusion hword

end names

section lines

variable (options : KeeneticOptions) (tcp udp quic : List String)

/-- Where a blob line of a conf comes from. -/
theorem blobLine_cases {line option : String} (hescape : '\\' ∉ option.toList) (hlt : '<' ∉ option.toList)
    (hline : line ∈ (buildKeeneticConf confText manifest options tcp udp quic).lines)
    (hstarts : startsWith line.toList ("--blob=" ++ option) = true) :
    (∃ name ∈ exportBlobNames confText (filterExportStrategies confText (tcp ++ udp ++ quicDefault quic)),
      ∃ file, blobExportFilename name = some file ∧ line = blobLine options.pre (exportIdent name) file) ∨
    '/' ∉ line.toList ∧ ∃ part ∈ (tcp ++ udp ++ quicDefault quic).flatMap (keptCli confText),
      startsWith part.text ("--blob=" ++ option) = true := by
  obtain ⟨rest, hrest, hperm⟩ := exists_lines confText manifest options tcp udp quic
  rw [hperm.mem_iff, List.mem_append, List.mem_append, List.mem_append, List.mem_append] at hline
  rw [List.flatMap_append, List.flatMap_append]
  rcases hline with (hline | hline | hline | hline) | hline
  · exact Or.inl (mem_blobParts.mp hline)
  · obtain ⟨hslash, part, hpart, h⟩ := cli_of_line hescape hlt hline hstarts
    exact Or.inr ⟨hslash, part, List.mem_append_left _ (List.mem_append_left _ hpart), h⟩
  · obtain ⟨hslash, part, hpart, h⟩ := cli_of_line hescape hlt hline hstarts
    exact Or.inr ⟨hslash, part, List.mem_append_left _ (List.mem_append_right _ hpart), h⟩
  · obtain ⟨hslash, part, hpart, h⟩ := cli_of_line hescape hlt hline hstarts
    exact Or.inr ⟨hslash, part, List.mem_append_right _ hpart, h⟩
  · have hblob := startsWith_blob hstarts
    rw [(hrest line hline).1] at hblob
    exact Bool.noConfusion hblob

theorem blobLine_mem {name file : String}
    (hname : name ∈ exportBlobNames confText (filterExportStrategies confText (tcp ++ udp ++ quicDefault quic)))
    (hfile : blobExportFilename name = some file) : blobLine options.pre (exportIdent name) file ∈
      (buildKeeneticConf confText manifest options tcp udp quic).lines := by
  obtain ⟨rest, -, hperm⟩ := exists_lines confText manifest options tcp udp quic
  rw [hperm.mem_iff]
  exact List.mem_append_left _ (List.mem_append_left _ (mem_blobParts.mpr ⟨name, hname, file, hfile, rfl⟩))

theorem cliLine_mem {part : ExportPart} {option : String} (hescape : '\\' ∉ option.toList)
    (hlt : '<' ∉ option.toList) (hpart : part ∈ (tcp ++ udp ++ quicDefault quic).flatMap (keptCli confText))
    (hstarts : startsWith part.text ("--blob=" ++ option) = true) :
    ∃ line ∈ (buildKeeneticConf confText manifest options tcp udp quic).lines,
      startsWith line.toList ("--blob=" ++ option) = true ∧ '/' ∉ line.toList := by
  obtain ⟨rest, -, hperm⟩ := exists_lines confText manifest options tcp udp quic
  have hlines : ∀ strategies, part ∈ strategies.flatMap (keptCli confText) →
      ∃ line ∈ desyncCliLines confText (filterExportStrategies confText strategies),
        startsWith line.toList ("--blob=" ++ option) = true ∧ '/' ∉ line.toList := by
    intro strategies h
    obtain ⟨line, hline, hstarts⟩ := line_of_cli hescape hlt h hstarts
    exact ⟨line, hline, hstarts, (cli_of_line hescape hlt hline hstarts).1⟩
  rw [List.flatMap_append, List.flatMap_append, List.mem_append, List.mem_append] at hpart
  rcases hpart with (hpart | hpart) | hpart
  · obtain ⟨line, hline, h⟩ := hlines tcp hpart
    exact ⟨line, hperm.mem_iff.mpr (List.mem_append_left _ (List.mem_append_right _
      (List.mem_append_left _ hline))), h⟩
  · obtain ⟨line, hline, h⟩ := hlines udp hpart
    exact ⟨line, hperm.mem_iff.mpr (List.mem_append_left _ (List.mem_append_right _
      (List.mem_append_right _ (List.mem_append_left _ hline)))), h⟩
  · obtain ⟨line, hline, h⟩ := hlines (quicDefault quic) hpart
    exact ⟨line, hperm.mem_iff.mpr (List.mem_append_left _ (List.mem_append_right _
      (List.mem_append_right _ (List.mem_append_right _ hline)))), h⟩

theorem filterMap_single {α β : Type} {l : List α} {f : α → Option β} {a : α} {b : β} (hl : l.Nodup) (ha : a ∈ l)
    (hf : f a = some b) (hother : ∀ x ∈ l, x ≠ a → f x = none) : l.filterMap f = [b] := by
  induction l with
  | nil => exact absurd ha List.not_mem_nil
  | cons x l ih =>
      rw [List.nodup_cons] at hl
      rw [List.forall_mem_cons] at hother
      by_cases hx : x = a
      · rw [hx] at hl
        rw [hx, List.filterMap_cons_some hf, List.filterMap_eq_nil_iff.mpr (fun y hy => hother.2 y hy (fun h => hl.1 (h ▸ hy)))]
      · have hmem : a ∈ l := (List.mem_cons.mp ha).resolve_left (Ne.symm hx)
        rw [List.filterMap_cons_none (hother.1 hx), ih hl.2 hmem hother.2]

theorem filename_some {name : String} (hbuiltin : name ∉ builtinBlobs) (hzero : name ≠ "0x00000000") :
    ∃ file, blobExportFilename name = some file := by
  rw [blobExportFilename, if_neg (not_or.mpr ⟨hbuiltin, hzero⟩)]
  exact ⟨_, rfl⟩

theorem not_builtin_of_some {name file : String} (h : blobExportFilename name = some file) : name ∉ builtinBlobs := by
  intro hbuiltin
  rw [blobExportFilename, if_pos (Or.inl hbuiltin)] at h
  exact nomatch h

theorem declares_eq (name line : String) : declares name line = startsWith line.toList ("--blob=" ++ (name ++ ":")) := by
  rw [declares, String.append_assoc]

theorem declaresFile_eq (name line : String) :
    declaresFile name line = startsWith line.toList ("--blob=" ++ (name ++ ":@")) := by
  rw [declaresFile, String.append_assoc]

theorem declaresFile_blobLine (pre name file : String) : declaresFile name (blobLine pre name file) = true := by
  rw [declaresFile, blobLine, startsWith, List.isPrefixOf_iff_prefix]
  exact ⟨(pre ++ "/blobs/" ++ file).toList, by simp only [String.toList_append, List.append_assoc]⟩

theorem slash_mem_blobLine (pre name file : String) : '/' ∈ (blobLine pre name file).toList := by
  rw [blobLine, String.toList_append, String.toList_append]
  exact List.mem_append_left _ (List.mem_append_right _ (by decide))

theorem blobLine_inj {pre name file file' : String} (h : blobLine pre name file = blobLine pre name file') :
    file = file' := by
  have hlists := congrArg String.toList h
  rw [blobLine, blobLine, String.toList_append, String.toList_append (t := file')] at hlists
  exact String.toList_inj.mp (List.append_cancel_left hlists)

theorem origins_nonempty (strategy name : String) : ∃ orig, orig ∈ origins strategy name := by
  rw [origins]
  split
  next => exact ⟨name, List.mem_singleton_self name⟩
  next hne => exact List.exists_mem_of_ne_nil _ hne

theorem declares_of_file {name line : String} (h : declaresFile name line = true) : declares name line = true := by
  rw [declaresFile, startsWith, List.isPrefixOf_iff_prefix] at h
  rw [declares, startsWith, List.isPrefixOf_iff_prefix]
  refine List.IsPrefix.trans ⟨['@'], ?_⟩ h
  rw [String.toList_append, String.toList_append (s := "--blob=" ++ name), List.append_assoc]
  rfl

theorem append_plain {name mark : String} {c : Char} (hname : c ∉ name.toList) (hmark : c ∉ mark.toList) :
    c ∉ (name ++ mark).toList := by
  rw [String.toList_append, List.mem_append, not_or]
  exact ⟨hname, hmark⟩

/-- The one declaration of a name, if every name is declared under itself. -/
theorem declared_once {name file : String} (hname : name ∈ exportBlobNames confText (filterExportStrategies confText
      (tcp ++ udp ++ quicDefault quic))) (hfile : blobExportFilename name = some file)
    (hself : ∀ other ∈ exportBlobNames confText (filterExportStrategies confText (tcp ++ udp ++ quicDefault quic)),
      other ∉ builtinBlobs → exportIdent other = other)
    (hcli : ∀ part ∈ (tcp ++ udp ++ quicDefault quic).flatMap (keptCli confText),
      startsWith part.text ("--blob=" ++ name ++ ":") = false) :
    (buildKeeneticConf confText manifest options tcp udp quic).lines.filter (declares name) =
      [blobLine options.pre name file] := by
  have hcolon : ∀ other ∈ exportBlobNames confText (filterExportStrategies confText
      (tcp ++ udp ++ quicDefault quic)), ':' ∉ other.toList := by
    intro other hother
    obtain ⟨strategy, -, hkept⟩ := kept_of_name hother
    exact kept_plain hkept rfl
  obtain ⟨strategy, -, hkept⟩ := kept_of_name hname
  have hnone : ∀ strategies : List String, (∀ part ∈ strategies.flatMap (keptCli confText),
      startsWith part.text ("--blob=" ++ name ++ ":") = false) →
      (desyncCliLines confText (filterExportStrategies confText strategies)).filter (declares name) = [] := by
    intro strategies hparts
    refine List.filter_eq_nil_iff.mpr (fun line hline hdeclares => ?_)
    rw [declares_eq] at hdeclares
    obtain ⟨-, part, hpart, hstarts⟩ := cli_of_line (append_plain (kept_plain hkept (by decide)) (by decide))
      (append_plain (kept_plain hkept (by decide)) (by decide)) hline hdeclares
    rw [← String.append_assoc, hparts part hpart] at hstarts
    exact Bool.noConfusion hstarts
  obtain ⟨rest, hrest, hperm⟩ := exists_lines confText manifest options tcp udp quic
  have hneutral : rest.filter (declares name) = [] := by
    refine List.filter_eq_nil_iff.mpr (fun line hline hdeclares => ?_)
    rw [declares_eq] at hdeclares
    have hblob := startsWith_blob hdeclares
    rw [(hrest line hline).1] at hblob
    exact Bool.noConfusion hblob
  have hblobs : ((exportBlobNames confText (filterExportStrategies confText
      (tcp ++ udp ++ quicDefault quic))).filterMap (fun name => blobExportCliLine name options.pre)).filter
        (declares name) = [blobLine options.pre name file] := by
    have hline : ∀ other ∈ exportBlobNames confText (filterExportStrategies confText
        (tcp ++ udp ++ quicDefault quic)), ∀ file, blobExportFilename other = some file →
        blobExportCliLine other options.pre = some (blobLine options.pre other file) := by
      intro other hother file hfile
      rw [blobExportCliLine, hfile, Option.map_some, hself other hother (not_builtin_of_some hfile)]
      rfl
    rw [List.filter_filterMap]
    refine filterMap_single (nodup_addAll List.nodup_nil _) hname ?_ ?_
    · rw [hline name hname file hfile, Option.filter_some,
        if_pos ((declares_blobLine (hcolon name hname) (hcolon name hname)).mpr rfl)]
    · intro other hother hne
      cases hother' : blobExportFilename other with
      | none => rw [blobExportCliLine, hother']; rfl
      | some file' =>
          rw [hline other hother file' hother', Option.filter_some,
            if_neg (fun h => hne ((declares_blobLine (hcolon name hname) (hcolon other hother)).mp h))]
  have hall := hperm.filter (declares name)
  rw [List.flatMap_append, List.flatMap_append, List.forall_mem_append, List.forall_mem_append] at hcli
  rw [List.filter_append, List.filter_append, List.filter_append, List.filter_append, hblobs, hneutral,
    hnone tcp hcli.1.1, hnone udp hcli.1.2, hnone (quicDefault quic) hcli.2] at hall
  exact List.perm_singleton.mp hall

theorem closed_of_declarable (h : ∀ strategy ∈ tcp ++ udp ++ quicDefault quic, ∀ name ∈ keptBlobs confText strategy,
    Declarable confText (tcp ++ udp ++ quicDefault quic) strategy name) :
    Closed confText options tcp udp quic (buildKeeneticConf confText manifest options tcp udp quic) := by
  have hself : ∀ other ∈ exportBlobNames confText (filterExportStrategies confText
      (tcp ++ udp ++ quicDefault quic)), other ∉ builtinBlobs → exportIdent other = other := by
    intro other hother hbuiltin
    obtain ⟨strategy, hstrategy, hkept⟩ := kept_of_name hother
    have hdeclarable := h strategy hstrategy other hkept
    rw [Declarable] at hdeclarable
    split at hdeclarable
    next hhex => exact exportIdent_of_hex hhex
    next hhex =>
      have hident := (Bool.or_eq_true _ _ ▸ (kept_chars hkept).1).resolve_right hhex
      exact (exportIdent_self_iff hident).mpr (hdeclarable.resolve_left hbuiltin).2.1
  have honce : ∀ strategy ∈ tcp ++ udp ++ quicDefault quic, ∀ name ∈ keptBlobs confText strategy,
      isHexBlob name = false → name ∉ builtinBlobs → ∃ file, blobExportFilename name = some file ∧
        (buildKeeneticConf confText manifest options tcp udp quic).lines.filter (declares name) =
          [blobLine options.pre name file] ∧
        ∀ orig ∈ origins strategy name, blobExportFilename orig = some file := by
    intro strategy hstrategy name hname hhex hbuiltin
    have hdeclarable := h strategy hstrategy name hname
    rw [Declarable, if_neg (Bool.eq_false_iff.mp hhex)] at hdeclarable
    obtain ⟨hhead, -, hcli, horigins⟩ := hdeclarable.resolve_left hbuiltin
    have hzero : name ≠ "0x00000000" := by
      rintro rfl
      exact absurd hhex (by decide)
    have hempty : name ≠ "" := by
      rintro rfl
      exact absurd (kept_chars hname).1 (by decide)
    obtain ⟨file, hfile⟩ := filename_some hbuiltin hzero
    refine ⟨file, hfile, ?_, fun orig horig => (horigins orig horig).trans hfile⟩
    exact declared_once confText manifest options tcp udp quic (mem_names.mpr ⟨hhead, hempty, hzero⟩) hfile hself hcli
  refine ⟨?_, ?_, ?_⟩
  · intro name hname hhex hbuiltin
    obtain ⟨strategy, hstrategy, hkept⟩ := (mem_references confText manifest options tcp udp quic name).mp hname
    obtain ⟨file, -, hlines, -⟩ := honce strategy hstrategy name hkept hhex hbuiltin
    have hok := (kept_chars hkept).1
    rw [hhex, Bool.or_false] at hok
    refine ⟨hok, ?_⟩
    rw [hlines, List.length_singleton]
  · intro strategy hstrategy name hname hhex hbuiltin orig horig line hline hdeclares
    obtain ⟨file, hfile, hlines, horigins⟩ := honce strategy hstrategy name hname hhex hbuiltin
    have hmem := List.mem_filter.mpr ⟨hline, hdeclares⟩
    rw [hlines, List.mem_singleton] at hmem
    exact ⟨file, horigins orig horig, hmem⟩
  · intro name hname hhex line hline
    obtain ⟨strategy, hstrategy, hkept⟩ := (mem_references confText manifest options tcp udp quic name).mp hname
    have hdeclarable := h strategy hstrategy name hkept
    rw [Declarable, if_pos hhex] at hdeclarable
    rw [declaresFile_eq, Bool.eq_false_iff]
    intro hstarts
    rcases blobLine_cases confText manifest options tcp udp quic
      (append_plain (kept_plain hkept (by decide)) (by decide))
      (append_plain (kept_plain hkept (by decide)) (by decide)) hline hstarts with
      ⟨other, hother, file, -, rfl⟩ | ⟨-, part, hpart, h⟩
    · obtain ⟨_, _, hother'⟩ := kept_of_name hother
      rw [← declaresFile_eq] at hstarts
      have hident := (declares_blobLine (kept_plain hkept rfl) (exportIdent_colon (kept_plain hother' rfl))).mp
        (declares_of_file hstarts)
      obtain rfl : other = name := by
        rw [← hident] at hhex
        rw [← exportIdent_hex hhex, hident]
      obtain ⟨hhead, -, hzero⟩ := mem_names.mp hother
      exact hdeclarable.1.elim hzero (fun h => h hhead)
    · rw [← String.append_assoc, hdeclarable.2 part hpart] at h
      exact Bool.noConfusion h

/-- Where a conf is closed, the declaration of a blob is made for a name. -/
theorem declaration_of_closed
    (h : Closed confText options tcp udp quic (buildKeeneticConf confText manifest options tcp udp quic))
    {strategy name : String} (hstrategy : strategy ∈ tcp ++ udp ++ quicDefault quic)
    (hname : name ∈ keptBlobs confText strategy) (hhex : isHexBlob name = false) (hbuiltin : name ∉ builtinBlobs) :
    ∃ other ∈ exportBlobNames confText (filterExportStrategies confText (tcp ++ udp ++ quicDefault quic)),
      ∃ file, blobExportFilename other = some file ∧ exportIdent other = name ∧
        (buildKeeneticConf confText manifest options tcp udp quic).lines.filter (declares name) =
          [blobLine options.pre name file] ∧
        ∀ orig ∈ origins strategy name, blobExportFilename orig = some file := by
  have hmem := (mem_references confText manifest options tcp udp quic name).mpr ⟨strategy, hstrategy, hname⟩
  obtain ⟨line, hlines⟩ := List.length_eq_one_iff.mp (h.declared name hmem hhex hbuiltin).2
  obtain ⟨hline, hdeclares⟩ : line ∈ (buildKeeneticConf confText manifest options tcp udp quic).lines ∧
      declares name line = true := List.mem_filter.mp (by rw [hlines]; exact List.mem_singleton_self line)
  have hfiles : ∀ orig ∈ origins strategy name, ∃ file, blobExportFilename orig = some file ∧
      line = blobLine options.pre name file := fun orig horig =>
    h.file strategy hstrategy name hname hhex hbuiltin orig horig line hline hdeclares
  obtain ⟨orig, horig⟩ := origins_nonempty strategy name
  obtain ⟨file, -, rfl⟩ := hfiles orig horig
  have hstarts := hdeclares
  rw [declares_eq] at hstarts
  rcases blobLine_cases confText manifest options tcp udp quic
    (append_plain (kept_plain hname (by decide)) (by decide))
    (append_plain (kept_plain hname (by decide)) (by decide)) hline hstarts with
    ⟨other, hother, file', hfile', heq⟩ | ⟨hslash, -⟩
  · obtain ⟨_, _, hkept⟩ := kept_of_name hother
    rw [heq] at hdeclares
    have hident := (declares_blobLine (kept_plain hname rfl) (exportIdent_colon (kept_plain hkept rfl))).mp hdeclares
    rw [hident] at heq
    obtain rfl := blobLine_inj heq
    refine ⟨other, hother, file, hfile', hident, hlines, fun orig horig => ?_⟩
    obtain ⟨file'', hfile'', heq⟩ := hfiles orig horig
    rw [hfile'', blobLine_inj heq]
  · exact absurd (slash_mem_blobLine _ _ _) hslash

theorem declarable_of_closed
    (h : Closed confText options tcp udp quic (buildKeeneticConf confText manifest options tcp udp quic))
    {strategy name : String} (hstrategy : strategy ∈ tcp ++ udp ++ quicDefault quic)
    (hname : name ∈ keptBlobs confText strategy) :
    Declarable confText (tcp ++ udp ++ quicDefault quic) strategy name := by
  have hmem := (mem_references confText manifest options tcp udp quic name).mpr ⟨strategy, hstrategy, hname⟩
  rw [Declarable]
  split
  next hhex =>
    have hno := h.hex name hmem hhex
    refine ⟨?_, fun part hpart => Bool.eq_false_iff.mpr (fun hstarts => ?_)⟩
    · by_contra hboth
      rw [not_or, not_not] at hboth
      have hempty : name ≠ "" := by
        rintro rfl
        exact absurd hhex (by decide)
      have hbuiltin : name ∉ builtinBlobs := fun hbuiltin => by
        have hnone : ∀ other ∈ builtinBlobs, isHexBlob other = false := by decide
        rw [hnone name hbuiltin] at hhex
        exact Bool.noConfusion hhex
      obtain ⟨file, hfile⟩ := filename_some hbuiltin hboth.1
      have hline := blobLine_mem confText manifest options tcp udp quic
        (mem_names.mpr ⟨hboth.2, hempty, hboth.1⟩) hfile
      rw [exportIdent_of_hex hhex] at hline
      have hfalse := hno _ hline
      rw [declaresFile_blobLine] at hfalse
      exact Bool.noConfusion hfalse
    · rw [String.append_assoc] at hstarts
      obtain ⟨line, hline, hdeclares, -⟩ := cliLine_mem confText manifest options tcp udp quic
        (append_plain (kept_plain hname (by decide)) (by decide))
        (append_plain (kept_plain hname (by decide)) (by decide)) hpart hstarts
      rw [← declaresFile_eq, hno line hline] at hdeclares
      exact Bool.noConfusion hdeclares
  next hhex =>
    rw [Bool.not_eq_true] at hhex
    rw [or_iff_not_imp_left]
    intro hbuiltin
    obtain ⟨other, hother, file, hfile, hident, hlines, horigins⟩ :=
      declaration_of_closed confText manifest options tcp udp quic h hstrategy hname hhex hbuiltin
    have hself : exportIdent other = other := by
      obtain ⟨strategy', hstrategy', hkept⟩ := kept_of_name hother
      cases hhex' : isHexBlob other with
      | true => exact exportIdent_of_hex hhex'
      | false =>
          obtain ⟨_, _, _, _, hident', -⟩ := declaration_of_closed confText manifest options tcp udp quic h hstrategy'
            hkept hhex' (not_builtin_of_some hfile)
          rw [← hident', exportIdent_idem]
    obtain rfl : other = name := hself.symm.trans hident
    have hok := (kept_chars hname).1
    rw [hhex, Bool.or_false] at hok
    refine ⟨(mem_names.mp hother).1, (exportIdent_self_iff hok).mp hself, fun part hpart => ?_, fun orig horig =>
      (horigins orig horig).trans hfile.symm⟩
    rw [Bool.eq_false_iff, String.append_assoc]
    intro hstarts
    obtain ⟨line, hline, hdeclares, hslash⟩ := cliLine_mem confText manifest options tcp udp quic
      (append_plain (kept_plain hname (by decide)) (by decide))
      (append_plain (kept_plain hname (by decide)) (by decide)) hpart hstarts
    rw [← declares_eq] at hdeclares
    have hin := List.mem_filter.mpr ⟨hline, hdeclares⟩
    rw [hlines, List.mem_singleton] at hin
    rw [hin] at hslash
    exact hslash (slash_mem_blobLine _ _ _)

end lines

end conf

def routerOptions : KeeneticOptions := ⟨"/opt/etc/nfqws2", "", []⟩

def compoundTcp : List String := ["fake:blob=stun+max_ru:repeats=6"]

def hexTcp : List String := ["fake:blob=0x1603:repeats=6"]

end Blockchecks.KeeneticClosed
