import Blockchecks.BlobOwn

namespace Blockchecks.BlobSound

open StrategyText LuaConf NfqwsConfig OrderedDict WordRefs BlobWords ConfRewrite BlobRename BlobDeclare BlobOwn

/-- The file of a name, as resolve_blob_path finds it. -/
def resolved (env : Env) (name : String) : Option String :=
  if name = "0x00000000" then none else env.blobPath name

/-- The names that the builders declare. -/
def blobNames (strategies : List String) : List String := strategies.flatMap extractBlobNames

/-- Every reference to a name with a file is to an identifier that one line declares,
with that file, and different names are referred to by different identifiers. The
strategies stand with their renamed texts. -/
structure Sound (env : Env) (texts : List (String × String)) (conf : List String) : Prop where
  declared : ∀ p ∈ texts, List.Forall₂ (fun name ident => ∀ file, resolved env name = some file →
    conf.filter (fun line => declares ident line.toList) = [blobLine ident file]) (references p.1) (references p.2)
  apart : ∀ p ∈ texts, ∀ q ∈ texts, ∀ r ∈ (references p.1).zip (references p.2),
    ∀ r' ∈ (references q.1).zip (references q.2), r.1 ≠ r'.1 → r.2 ≠ r'.2

/-- A --blob argument of a strategy that comes to declare the identifier of a name. -/
def Clashes (names : List String) (name other : String) : Prop :=
  other = name ∨ other = safeBlobName name ∨
    safeBlobName other = name ∧ other ∈ names ∧ name ∈ upTo names other

/-- No two names share an identifier, no reference is left behind by its replacement,
and no strategy declares an identifier itself. -/
structure Clean (env : Env) (all : Bool) (strategies : List String) : Prop where
  files : ∀ n ∈ blobNames strategies, ∀ m ∈ blobNames strategies, n ≠ m → (env.blobPath n).isSome →
    (env.blobPath m).isSome → safeBlobName n ≠ safeBlobName m
  missing : ∀ n ∈ blobNames strategies, ∀ m ∈ blobNames strategies, n ≠ m → env.blobPath n = none →
    (env.blobPath m).isSome → safeBlobName n = safeBlobName m →
      isIdentifier n = false ∧
        (m ∈ upTo (blobNames strategies) n → ∀ text ∈ strategies, metReference true n text = false)
  read : ∀ n ∈ blobNames strategies, (env.blobPath n).isSome → isIdentifier n = false →
    ∀ text ∈ strategies, metReference false n text = false
  own : ∀ n ∈ blobNames strategies, (env.blobPath n).isSome → ∀ text ∈ strategies,
    ∀ arg ∈ cliArgs all text.toList, ∀ m, IsWord m.toList → declares m arg = true →
      ¬ Clashes (blobNames strategies) n m

theorem mem_blobNames {strategies : List String} {name : String} : name ∈ blobNames strategies ↔
    name ≠ "0x00000000" ∧ ∃ text ∈ strategies, name ∈ references text := by
  rw [blobNames, List.mem_flatMap]
  simp only [extractBlobNames, mem_addAll, List.not_mem_nil, false_or, List.mem_filter, decide_eq_true_eq,
    references]
  constructor
  · rintro ⟨text, htext, hmem, hne⟩
    exact ⟨hne, text, htext, hmem⟩
  · rintro ⟨hne, text, htext, hmem⟩
    exact ⟨text, htext, hmem, hne⟩

theorem blobNames_word {strategies : List String} :
    ∀ name ∈ blobNames strategies, IsWord name.toList ∧ name ≠ "" := by
  intro name h
  obtain ⟨-, text, -, hmem⟩ := mem_blobNames.mp h
  exact references_word hmem

/-- What the references to a name become. -/
def identifierOf (env : Env) (names : List String) (name : String) : String :=
  if name ∈ names ∧ isIdentifier name = false ∧ (blobFile env (upTo names name) (safeBlobName name)).isSome then
    safeBlobName name
  else name

section safe

variable {n m : String}

theorem safe_of_identifier (h : isIdentifier n = true) : safeBlobName n = n := by rw [safeBlobName, if_pos h]

theorem isIdentifier_eq_false (hne : n ≠ safeBlobName n) : isIdentifier n = false := by
  rw [Bool.eq_false_iff]
  exact fun hident => hne (safe_of_identifier hident).symm

theorem safe_of_not (h : isIdentifier n = false) : safeBlobName n = "b" ++ n := by
  rw [safeBlobName, h, if_neg Bool.false_ne_true]

theorem isIdentifier_safe (h : IsWord n.toList) : isIdentifier (safeBlobName n) = true := by
  cases hn : isIdentifier n with
  | true => rwa [safe_of_identifier hn]
  | false =>
      rw [safe_of_not hn]
      exact isIdentifier_b h

theorem b_injective (h : "b" ++ n = "b" ++ m) : n = m := by
  have hlist := congrArg String.toList h
  rw [String.toList_append, String.toList_append] at hlist
  exact String.toList_injective (List.append_cancel_left hlist)

/-- Two names share an identifier only when one is the identifier of the other. -/
theorem safe_eq_cases (h : safeBlobName n = safeBlobName m) :
    n = m ∨ isIdentifier n = false ∧ m = safeBlobName n ∨ isIdentifier m = false ∧ n = safeBlobName m := by
  cases hn : isIdentifier n with
  | true =>
      cases hm : isIdentifier m with
      | true => exact Or.inl (by rwa [safe_of_identifier hn, safe_of_identifier hm] at h)
      | false => exact Or.inr (Or.inr ⟨rfl, by rwa [safe_of_identifier hn] at h⟩)
  | false =>
      cases hm : isIdentifier m with
      | true => exact Or.inr (Or.inl ⟨rfl, by rw [h, safe_of_identifier hm]⟩)
      | false =>
          rw [safe_of_not hn, safe_of_not hm] at h
          exact Or.inl (b_injective h)

end safe

section made

variable {env : Env} {names : List String} {state : List String × Renames}

theorem entry_iff {n s : String} (h : Appended env names state) :
    (n, s) ∈ state.2.entries ↔ n ∈ names ∧ s = renameFor env names n := by
  rw [← Dict.get?_eq_some_iff, h.renames]
  split
  next hmem =>
    rw [Option.some.injEq]
    exact ⟨fun heq => ⟨hmem, heq.symm⟩, fun heq => heq.2.symm⟩
  next hmem => exact iff_of_false (fun heq => nomatch heq) (fun heq => hmem heq.1)

theorem made (h : Appended env names state) (hnames : ∀ name ∈ names, IsWord name.toList ∧ name ≠ "") :
    Made state.2.entries where
  nodup := state.2.nodup
  word := fun e he => hnames e.1 ((entry_iff h).mp he).1
  safe := fun e he => by
    obtain ⟨n, s⟩ := e
    obtain ⟨-, rfl⟩ := (entry_iff h).mp he
    rw [renameFor]
    split
    · exact Or.inr rfl
    · exact Or.inl rfl

theorem effective_iff {n s : String} (h : Appended env names state)
    (hnames : ∀ name ∈ names, IsWord name.toList ∧ name ≠ "") : (n, s) ∈ effective state.2.entries ↔
      n ∈ names ∧ isIdentifier n = false ∧ (blobFile env (upTo names n) (safeBlobName n)).isSome ∧
        s = safeBlobName n := by
  constructor
  · intro hmem
    obtain ⟨hentry, hident, heq⟩ := (made h hnames).mem_effective hmem
    obtain ⟨hin, hrename⟩ := (entry_iff h).mp hentry
    have hsafe : s = safeBlobName n := by rw [safe_of_not hident]; exact heq
    refine ⟨hin, hident, ?_, hsafe⟩
    by_contra hnone
    rw [renameFor, if_neg hnone] at hrename
    exact safe_ne (hnames n hin).2 (hsafe.symm.trans hrename)
  · rintro ⟨hin, hident, hsome, rfl⟩
    have hself : n ≠ safeBlobName n := fun heq => by
      have hword := isIdentifier_safe (hnames n hin).1
      rw [← heq, hident] at hword
      cases hword
    refine List.mem_filter.mpr ⟨(entry_iff h).mpr ⟨hin, by rw [renameFor, if_pos hsome]⟩, ?_⟩
    rw [Bool.not_eq_true', decide_eq_false_iff_not, not_or, not_or]
    exact ⟨(hnames n hin).2, safe_ne (hnames n hin).2, hself⟩

theorem rename_eq {entries : List (String × String)} (hapart : ∀ e ∈ entries, ∀ e' ∈ entries, e.1 ≠ e'.2)
    (hnodup : (entries.map Prod.fst).Nodup) (name : String) :
    (∀ s, (name, s) ∈ entries → rename entries name = s) ∧
      ((∀ s, (name, s) ∉ entries) → rename entries name = name) := by
  induction entries generalizing name with
  | nil => exact ⟨fun s hs => (List.not_mem_nil hs).elim, fun _ => rfl⟩
  | cons e entries ih =>
      obtain ⟨hhead, hnodup⟩ := List.nodup_cons.mp hnodup
      have htail := ih (fun e he e' he' => hapart e (List.mem_cons_of_mem _ he) e' (List.mem_cons_of_mem _ he')) hnodup
      have hrename : rename (e :: entries) name = rename entries (if name = e.1 then e.2 else name) := rfl
      rw [hrename]
      split
      next heq =>
        have hlast : rename entries e.2 = e.2 := (htail e.2).2 (fun s hs =>
          hapart _ (List.mem_cons_of_mem _ hs) e List.mem_cons_self rfl)
        refine ⟨fun s hs => ?_, fun hnone => absurd List.mem_cons_self (heq ▸ hnone e.2)⟩
        rw [hlast]
        rcases List.mem_cons.mp hs with hs | hs
        · rw [← hs]
        · exact absurd (List.mem_map_of_mem (f := Prod.fst) hs) (heq ▸ hhead)
      next hne =>
        refine ⟨fun s hs => (htail name).1 s ?_, fun hnone =>
          (htail name).2 (fun s hs => hnone s (List.mem_cons_of_mem _ hs))⟩
        exact (List.mem_cons.mp hs).resolve_left (fun hs => hne (by rw [← hs]))

theorem rename_effective (h : Appended env names state) (hnames : ∀ name ∈ names, IsWord name.toList ∧ name ≠ "")
    (name : String) : rename (effective state.2.entries) name = identifierOf env names name := by
  have hmade := made h hnames
  have heq := @rename_eq (effective state.2.entries) ?_ ?_ name
  · rw [identifierOf]
    split
    next hin => exact heq.1 _ ((effective_iff h hnames).mpr ⟨hin.1, hin.2.1, hin.2.2, rfl⟩)
    next hout =>
      refine heq.2 (fun s hs => hout ?_)
      obtain ⟨hin, hident, hsome, -⟩ := (effective_iff h hnames).mp hs
      exact ⟨hin, hident, hsome⟩
  · intro e he e' he' hpair
    obtain ⟨-, hident, -⟩ := hmade.mem_effective he
    obtain ⟨hmem, -, heq⟩ := hmade.mem_effective he'
    rw [hpair, heq, isIdentifier_b (hmade.word e' hmem).1] at hident
    cases hident
  · exact hmade.nodup.sublist (List.filter_sublist.map _)

end made

/-- The parts of a conf: the lines with the declarations of the names, and the lines of the
renamed strategies. -/
structure Built (env : Env) (all : Bool) (strategies lines after : List String) (renames : Renames) : Prop where
  appended : Appended env (blobNames strategies) (lines, renames)
  own : ∀ ident, IsWord ident.toList → ((∃ line ∈ after, declares ident line.toList = true) ↔
    ∃ text ∈ strategies, ∃ arg ∈ cliArgs all (applyBlobRenames text renames).toList, declares ident arg = true)

section built

variable {env : Env} {all : Bool} {strategies lines after : List String} {renames : Renames}

theorem Built.own_iff (h : Built env all strategies lines after renames) {ident : String} (hident : IsWord ident.toList) :
    (∃ line ∈ after, declares ident line.toList = true) ↔ ∃ text ∈ strategies, ∃ arg ∈ cliArgs all text.toList,
      ∃ m, IsWord m.toList ∧ declares m arg = true ∧ identifierOf env (blobNames strategies) m = ident := by
  have hwords := (made h.appended blobNames_word).allWords
  rw [h.own ident hident]
  refine exists_congr (fun text => and_congr_right (fun _ => ?_))
  rw [toList_applyBlobRenames, cliArgs_map (rewriteText_rewrites hwords) layout]
  simp only [List.mem_map, exists_exists_and_eq_and, declares_rewriteText hwords hident]
  simp only [← rename_effective h.appended blobNames_word]

theorem blobFile_some {names : List String} {ident file : String} (h : blobFile env names ident = some file) :
    ∃ name ∈ names, safeBlobName name = ident ∧ env.blobPath name = some file := by
  obtain ⟨name, hname, hfile⟩ := List.exists_of_findSome?_eq_some h
  split at hfile
  next hident => exact ⟨name, hname, hident, hfile⟩
  next => cases hfile

theorem blobFile_isSome {names : List String} {name : String} (hname : name ∈ names)
    (hfile : (env.blobPath name).isSome) : (blobFile env names (safeBlobName name)).isSome := by
  by_contra hnone
  rw [Option.not_isSome_iff_eq_none] at hnone
  rw [blobFile_eq_none_iff.mp hnone name hname rfl] at hfile
  cases hfile

theorem mem_upTo (names : List String) (name : String) : name ∈ upTo names name := List.mem_concat_self

/-- A reference is replaced as its name is, or left as it is. -/
theorem Built.reference_cases (h : Built env all strategies lines after renames) {text n ident : String}
    (hmem : (n, ident) ∈ (references text).zip (references (applyBlobRenames text renames))) :
    ident = n ∨ (n, ident) ∈ effective renames.entries :=
  List.forall₂_zip (references_renamed (made h.appended blobNames_word) text) hmem

theorem Built.effective_iff (h : Built env all strategies lines after renames) {n s : String} :
    (n, s) ∈ effective renames.entries ↔ n ∈ blobNames strategies ∧ isIdentifier n = false ∧
      (blobFile env (upTo (blobNames strategies) n) (safeBlobName n)).isSome ∧ s = safeBlobName n :=
  BlobSound.effective_iff h.appended blobNames_word

/-- A name with a file is replaced, unless it is an identifier. -/
theorem Built.effective_of_file (h : Built env all strategies lines after renames) {n : String}
    (hn : n ∈ blobNames strategies) (hfile : (env.blobPath n).isSome) (hident : isIdentifier n = false) :
    (n, safeBlobName n) ∈ effective renames.entries :=
  h.effective_iff.mpr ⟨hn, hident, blobFile_isSome (mem_upTo _ n) hfile, rfl⟩

theorem Built.met_iff (h : Built env all strategies lines after renames) (replaced : Bool) (text : String) {n : String}
    (hn : (n, safeBlobName n) ∈ effective renames.entries) :
    (n, if replaced then safeBlobName n else n) ∈
        (references text).zip (references (applyBlobRenames text renames)) ↔
      metReference replaced n text = true :=
  met_reference_iff (made h.appended blobNames_word) replaced text hn

theorem Clean.file (h : Clean env all strategies) {n file : String} (hn : n ∈ blobNames strategies)
    (hfile : env.blobPath n = some file) : blobFile env (blobNames strategies) (safeBlobName n) = some file := by
  have hsome : (env.blobPath n).isSome := by rw [hfile]; rfl
  obtain ⟨file', hfile'⟩ := Option.isSome_iff_exists.mp (blobFile_isSome hn hsome)
  obtain ⟨m, hm, hsafe, hpath⟩ := blobFile_some hfile'
  have heq : n = m := by
    by_contra hne
    exact h.files n hn m hm hne hsome (by rw [hpath]; rfl) hsafe.symm
  rw [hfile', ← hpath, ← heq, hfile]

/-- No strategy comes to declare the identifier of a name. -/
theorem Clean.own_none (h : Clean env all strategies) {n : String} (hn : n ∈ blobNames strategies)
    (hfile : (env.blobPath n).isSome) {text : String} (htext : text ∈ strategies) {arg : List Char}
    (harg : arg ∈ cliArgs all text.toList) {m : String} (hword : IsWord m.toList) (hdecl : declares m arg = true) :
    identifierOf env (blobNames strategies) m ≠ safeBlobName n := by
  intro heq
  refine h.own n hn hfile text htext arg harg m hword hdecl ?_
  rw [identifierOf] at heq
  split at heq
  next hin =>
    obtain ⟨hm, hident, hsome⟩ := hin
    rcases safe_eq_cases heq with rfl | ⟨-, hsafe⟩ | ⟨-, hsafe⟩
    · exact Or.inl rfl
    · obtain ⟨file, hblob⟩ := Option.isSome_iff_exists.mp hsome
      obtain ⟨n', hn', hsafe', hpath⟩ := blobFile_some hblob
      have hsame : n' = n := by
        by_contra hne
        exact h.files n' ((upTo_initial hm).subset hn') n hn hne (by rw [hpath]; rfl) hfile (hsafe'.trans heq)
      exact Or.inr (Or.inr ⟨hsafe.symm, hm, hsame ▸ hn'⟩)
    · exact Or.inr (Or.inl hsafe)
  next => exact Or.inr (Or.inl heq)

/-- The strategies, each with its renamed text. -/
def renamedTexts (strategies : List String) (renames : Renames) : List (String × String) :=
  strategies.map (fun text => (text, applyBlobRenames text renames))

theorem mem_renamedTexts {p : String × String} : p ∈ renamedTexts strategies renames ↔
    ∃ text ∈ strategies, p = (text, applyBlobRenames text renames) := by
  rw [renamedTexts, List.mem_map]
  exact exists_congr (fun text => and_congr_right (fun _ => eq_comm))

theorem name_of_zip {text ident name : String} {idents : List String} (htext : text ∈ strategies)
    (hmem : (name, ident) ∈ (references text).zip idents) (hne : name ≠ "0x00000000") :
    name ∈ blobNames strategies := mem_blobNames.mpr ⟨hne, text, htext, (List.of_mem_zip hmem).1⟩

theorem resolved_iff {name file : String} :
    resolved env name = some file ↔ name ≠ "0x00000000" ∧ env.blobPath name = some file := by
  rw [resolved]
  split
  next h => exact iff_of_false (fun heq => nomatch heq) (fun heq => heq.1 h)
  next h => exact ⟨fun heq => ⟨h, heq⟩, fun heq => heq.2⟩

section clean

/-- Every reference to a name with a file is to the identifier of the name. -/
theorem Clean.reference (hbuilt : Built env all strategies lines after renames) (hclean : Clean env all strategies)
    {text n ident : String} (htext : text ∈ strategies)
    (hmem : (n, ident) ∈ (references text).zip (references (applyBlobRenames text renames)))
    (hn : n ∈ blobNames strategies) (hfile : (env.blobPath n).isSome) : ident = safeBlobName n := by
  rcases hbuilt.reference_cases hmem with rfl | heff
  · by_contra hne
    have hident := isIdentifier_eq_false hne
    have hmet := (hbuilt.met_iff false text (hbuilt.effective_of_file hn hfile hident)).mp hmem
    rw [hclean.read _ hn hfile hident text htext] at hmet
    cases hmet
  · exact (hbuilt.effective_iff.mp heff).2.2.2

theorem Clean.declared (hbuilt : Built env all strategies lines after renames) (hclean : Clean env all strategies)
    {n file : String} (hn : n ∈ blobNames strategies) (hfile : env.blobPath n = some file) :
    (lines ++ after).filter (fun line => declares (safeBlobName n) line.toList) =
      [blobLine (safeBlobName n) file] := by
  have hword := safe_word (blobNames_word n hn).1
  have hlines := hbuilt.appended.lines (safeBlobName n) hword
  rw [hclean.file hn hfile] at hlines
  have hafter : after.filter (fun line => declares (safeBlobName n) line.toList) = [] := by
    refine List.filter_eq_nil_iff.mpr (fun line hline hdecl => ?_)
    obtain ⟨text, htext, arg, harg, m, hm, hdecl, heq⟩ := (hbuilt.own_iff hword).mp ⟨line, hline, hdecl⟩
    exact hclean.own_none hn (by rw [hfile]; rfl) htext harg hm hdecl heq
  rw [List.filter_append, hlines, hafter, List.append_nil]
  rfl

/-- A replaced name does not meet another name. -/
theorem Clean.replaced_ne (hbuilt : Built env all strategies lines after renames) (hclean : Clean env all strategies)
    {text n m : String} (htext : text ∈ strategies)
    (hmem : (n, safeBlobName n) ∈ (references text).zip (references (applyBlobRenames text renames)))
    (heff : (n, safeBlobName n) ∈ effective renames.entries) (hm : m ∈ blobNames strategies) (hne : n ≠ m) :
    safeBlobName n ≠ m := by
  rintro rfl
  obtain ⟨hn, hident, hsome, -⟩ := hbuilt.effective_iff.mp heff
  have hself : isIdentifier (safeBlobName n) = true := isIdentifier_safe (blobNames_word n hn).1
  have hsafe : safeBlobName (safeBlobName n) = safeBlobName n := safe_of_identifier hself
  obtain ⟨file, hfile⟩ := Option.isSome_iff_exists.mp hsome
  obtain ⟨source, hsource, hsame, hpath⟩ := blobFile_some hfile
  have hsourceFile : (env.blobPath source).isSome := by rw [hpath]; rfl
  rcases safe_eq_cases hsame with rfl | ⟨hno, heq⟩ | ⟨-, rfl⟩
  · -- the name has a file, so its identifier is no other name
    cases hother : env.blobPath (safeBlobName source) with
    | some path => exact hclean.files source hn _ hm hne hsourceFile (by rw [hother]; rfl) hsafe.symm
    | none =>
        have hmissing := hclean.missing _ hm source hn (Ne.symm hne) hother hsourceFile hsafe
        rw [hself] at hmissing
        cases hmissing.1
  · rw [heq, isIdentifier_safe (blobNames_word source ((upTo_initial hn).subset hsource)).1] at hident
    cases hident
  · -- the other name has a file and comes first
    cases hown : env.blobPath n with
    | some path => exact hclean.files n hn _ hm hne (by rw [hown]; rfl) hsourceFile hsafe.symm
    | none =>
        have hmissing := (hclean.missing n hn _ hm hne hown hsourceFile hsafe.symm).2 hsource text htext
        rw [(hbuilt.met_iff true text heff).mp hmem] at hmissing
        cases hmissing

theorem Clean.apart (hbuilt : Built env all strategies lines after renames) (hclean : Clean env all strategies)
    {text text' n m ident : String} (htext : text ∈ strategies) (htext' : text' ∈ strategies)
    (hmem : (n, ident) ∈ (references text).zip (references (applyBlobRenames text renames)))
    (hmem' : (m, ident) ∈ (references text').zip (references (applyBlobRenames text' renames))) : n = m := by
  have hplain (word : String) (h : isIdentifier (safeBlobName word) = true) : safeBlobName word ≠ "0x00000000" := by
    intro heq
    rw [heq] at h
    exact absurd h (by decide)
  have hword {word : String} (h : word ∈ blobNames strategies) := hplain word (isIdentifier_safe (blobNames_word word h).1)
  by_contra hne
  rcases hbuilt.reference_cases hmem with rfl | heff
  · rcases hbuilt.reference_cases hmem' with rfl | heff
    · exact hne rfl
    · obtain ⟨hm, -, -, rfl⟩ := hbuilt.effective_iff.mp heff
      exact hclean.replaced_ne hbuilt htext' hmem' heff (name_of_zip htext hmem (hword hm)) (Ne.symm hne) rfl
  · obtain ⟨hn, hident, -, rfl⟩ := hbuilt.effective_iff.mp heff
    rcases hbuilt.reference_cases hmem' with rfl | heff'
    · exact hclean.replaced_ne hbuilt htext hmem heff (name_of_zip htext' hmem' (hword hn)) hne rfl
    · obtain ⟨-, hident', -, heq⟩ := hbuilt.effective_iff.mp heff'
      rw [safe_of_not hident, safe_of_not hident'] at heq
      exact hne (b_injective heq)

theorem Clean.sound (hbuilt : Built env all strategies lines after renames) (hclean : Clean env all strategies) :
    Sound env (renamedTexts strategies renames) (lines ++ after) where
  declared := by
    intro p hp
    obtain ⟨text, htext, rfl⟩ := mem_renamedTexts.mp hp
    have hlength := (references_renamed (made hbuilt.appended blobNames_word) text).length_eq
    refine List.forall₂_iff_zip.mpr ⟨hlength, fun {n ident} hmem file hresolved => ?_⟩
    obtain ⟨hne, hfile⟩ := resolved_iff.mp hresolved
    have hn := name_of_zip htext hmem hne
    rw [hclean.reference hbuilt htext hmem hn (by rw [hfile]; rfl)]
    exact hclean.declared hbuilt hn hfile
  apart := by
    intro p hp q hq r hr r' hr' hne heq
    obtain ⟨text, htext, rfl⟩ := mem_renamedTexts.mp hp
    obtain ⟨text', htext', rfl⟩ := mem_renamedTexts.mp hq
    obtain ⟨n, ident⟩ := r
    obtain ⟨m, ident'⟩ := r'
    obtain rfl : ident = ident' := heq
    exact hne (hclean.apart hbuilt htext htext' hr hr')

end clean

section sound

variable {texts : List (String × String)}

theorem exists_zip {α β : Type} {l : List α} {l' : List β} (hlength : l.length = l'.length) {a : α} (ha : a ∈ l) :
    ∃ b, (a, b) ∈ l.zip l' := by
  obtain ⟨i, hi⟩ := List.mem_iff_getElem?.mp ha
  obtain ⟨hlt, -⟩ := List.getElem?_eq_some_iff.mp hi
  exact ⟨_, mem_zip_iff.mpr ⟨i, hi, List.getElem?_eq_getElem (hlength ▸ hlt)⟩⟩

theorem Built.exists_reference (hbuilt : Built env all strategies lines after renames) {n : String}
    (hn : n ∈ blobNames strategies) : ∃ text ∈ strategies, ∃ ident,
      (n, ident) ∈ (references text).zip (references (applyBlobRenames text renames)) := by
  obtain ⟨-, text, htext, hmem⟩ := mem_blobNames.mp hn
  exact ⟨text, htext, exists_zip (references_renamed (made hbuilt.appended blobNames_word) text).length_eq hmem⟩

/-- The lines that declare what a name with a file is referred to by. -/
theorem Sound.one_line (hsound : Sound env (renamedTexts strategies renames) (lines ++ after)) {text n ident file : String}
    (htext : text ∈ strategies)
    (hmem : (n, ident) ∈ (references text).zip (references (applyBlobRenames text renames)))
    (hn : n ∈ blobNames strategies) (hfile : env.blobPath n = some file) :
    (lines ++ after).filter (fun line => declares ident line.toList) = [blobLine ident file] := by
  have hp : (text, applyBlobRenames text renames) ∈ renamedTexts strategies renames :=
    mem_renamedTexts.mpr ⟨text, htext, rfl⟩
  exact List.forall₂_zip (hsound.declared _ hp) hmem file (resolved_iff.mpr ⟨(mem_blobNames.mp hn).1, hfile⟩)

theorem Sound.reference (hbuilt : Built env all strategies lines after renames)
    (hsound : Sound env (renamedTexts strategies renames) (lines ++ after)) {text n ident : String}
    (htext : text ∈ strategies)
    (hmem : (n, ident) ∈ (references text).zip (references (applyBlobRenames text renames)))
    (hn : n ∈ blobNames strategies) (hfile : (env.blobPath n).isSome) : ident = safeBlobName n := by
  rcases hbuilt.reference_cases hmem with rfl | heff
  · by_contra hne
    have hident := isIdentifier_eq_false hne
    have hword := (blobNames_word ident hn).1
    obtain ⟨file, hfile'⟩ := Option.isSome_iff_exists.mp hfile
    have hone := hsound.one_line htext hmem hn hfile'
    have hline : blobLine ident file ∈ (lines ++ after).filter (fun line => declares ident line.toList) := by
      rw [hone]
      exact List.mem_singleton_self _
    obtain ⟨hline, hdecl⟩ := List.mem_filter.mp hline
    -- no line declares a name that is no identifier
    rcases List.mem_append.mp hline with hline | hline
    · have hmem : blobLine ident file ∈ lines.filter (fun line => declares ident line.toList) :=
        List.mem_filter.mpr ⟨hline, hdecl⟩
      rw [hbuilt.appended.lines ident hword] at hmem
      cases hblob : blobFile env (blobNames strategies) ident with
      | none =>
          rw [hblob] at hmem
          cases hmem
      | some path =>
          obtain ⟨m, hm, rfl, -⟩ := blobFile_some hblob
          rw [isIdentifier_safe (blobNames_word m hm).1] at hident
          cases hident
    · obtain ⟨text, htext, arg, harg, m, hm, hdecl, heq⟩ := (hbuilt.own_iff hword).mp ⟨_, hline, hdecl⟩
      rw [identifierOf] at heq
      split at heq
      next =>
        rw [← heq, isIdentifier_safe hm] at hident
        cases hident
      next hout =>
        subst heq
        exact hout ⟨hn, hident, blobFile_isSome (mem_upTo _ m) hfile⟩
  · exact (hbuilt.effective_iff.mp heff).2.2.2

theorem Sound.ne (hsound : Sound env (renamedTexts strategies renames) (lines ++ after))
    {text text' n m ident ident' : String} (htext : text ∈ strategies) (htext' : text' ∈ strategies)
    (hmem : (n, ident) ∈ (references text).zip (references (applyBlobRenames text renames)))
    (hmem' : (m, ident') ∈ (references text').zip (references (applyBlobRenames text' renames))) (hne : n ≠ m) :
    ident ≠ ident' :=
  hsound.apart _ (mem_renamedTexts.mpr ⟨text, htext, rfl⟩) _ (mem_renamedTexts.mpr ⟨text', htext', rfl⟩) _ hmem _
    hmem' hne

/-- Some reference to a name with a file is to its identifier. -/
theorem Sound.exists_reference (hbuilt : Built env all strategies lines after renames)
    (hsound : Sound env (renamedTexts strategies renames) (lines ++ after)) {n : String}
    (hn : n ∈ blobNames strategies) (hfile : (env.blobPath n).isSome) : ∃ text ∈ strategies,
      (n, safeBlobName n) ∈ (references text).zip (references (applyBlobRenames text renames)) := by
  obtain ⟨text, htext, ident, hmem⟩ := hbuilt.exists_reference hn
  obtain rfl := hsound.reference hbuilt htext hmem hn hfile
  exact ⟨text, htext, hmem⟩

theorem Sound.missing (hbuilt : Built env all strategies lines after renames)
    (hsound : Sound env (renamedTexts strategies renames) (lines ++ after)) {n m : String}
    (hn : n ∈ blobNames strategies) (hm : m ∈ blobNames strategies) (hne : n ≠ m)
    (hfile : (env.blobPath m).isSome) (hsafe : safeBlobName n = safeBlobName m) :
    isIdentifier n = false ∧
      (m ∈ upTo (blobNames strategies) n → ∀ text ∈ strategies, metReference true n text = false) := by
  obtain ⟨text', htext', hmem'⟩ := hsound.exists_reference hbuilt hm hfile
  have hident : isIdentifier n = false := by
    by_contra hident
    rw [Bool.not_eq_false] at hident
    obtain ⟨text, htext, ident, hmem⟩ := hbuilt.exists_reference hn
    rcases hbuilt.reference_cases hmem with rfl | heff
    · exact hsound.ne htext htext' hmem hmem' hne ((safe_of_identifier hident).symm.trans hsafe)
    · rw [(hbuilt.effective_iff.mp heff).2.1] at hident
      cases hident
  refine ⟨hident, fun hfirst text htext => ?_⟩
  rw [Bool.eq_false_iff]
  intro hmet
  have hsome : (blobFile env (upTo (blobNames strategies) n) (safeBlobName n)).isSome := by
    rw [hsafe]
    exact blobFile_isSome hfirst hfile
  have heff := hbuilt.effective_iff.mpr ⟨hn, hident, hsome, rfl⟩
  exact hsound.ne htext htext' ((hbuilt.met_iff true text heff).mpr hmet) hmem' hne hsafe

/-- Whatever clashes with a name comes to declare its identifier. -/
theorem identifierOf_clash {names : List String} (hnames : ∀ name ∈ names, IsWord name.toList ∧ name ≠ "")
    {n m : String} (hn : n ∈ names) (hfile : (env.blobPath n).isSome) (hclash : Clashes names n m) :
    identifierOf env names m = safeBlobName n := by
  have hself (n : String) (hn : n ∈ names) (hfile : (env.blobPath n).isSome) :
      identifierOf env names n = safeBlobName n := by
    rw [identifierOf]
    cases hident : isIdentifier n with
    | true => rw [if_neg (fun h => nomatch h.2.1), safe_of_identifier hident]
    | false => rw [if_pos ⟨hn, rfl, blobFile_isSome (mem_upTo names n) hfile⟩]
  rcases hclash with rfl | rfl | ⟨rfl, hm, hfirst⟩
  · exact hself m hn hfile
  · rw [identifierOf, isIdentifier_safe (hnames n hn).1, if_neg (fun h => nomatch h.2.1)]
  · cases hident : isIdentifier m with
    | true =>
        rw [safe_of_identifier hident] at hn hfile ⊢
        rw [hself m hn hfile]
    | false =>
        have hsafe : safeBlobName (safeBlobName m) = safeBlobName m := safe_of_identifier (isIdentifier_safe (hnames m hm).1)
        have hsome := blobFile_isSome hfirst hfile
        rw [hsafe] at hsome
        rw [identifierOf, if_pos ⟨hm, hident, hsome⟩, hsafe]

theorem Sound.own (hbuilt : Built env all strategies lines after renames)
    (hsound : Sound env (renamedTexts strategies renames) (lines ++ after)) {n : String}
    (hn : n ∈ blobNames strategies) (hfile : (env.blobPath n).isSome) {text : String} (htext : text ∈ strategies)
    {arg : List Char} (harg : arg ∈ cliArgs all text.toList) {m : String} (hm : IsWord m.toList)
    (hdecl : declares m arg = true) : ¬ Clashes (blobNames strategies) n m := by
  intro hclash
  have hword := safe_word (blobNames_word n hn).1
  obtain ⟨line, hline, hdeclLine⟩ := (hbuilt.own_iff hword).mpr
    ⟨text, htext, arg, harg, m, hm, hdecl, identifierOf_clash blobNames_word hn hfile hclash⟩
  obtain ⟨text', htext', hmem'⟩ := hsound.exists_reference hbuilt hn hfile
  obtain ⟨file, hfile'⟩ := Option.isSome_iff_exists.mp hfile
  obtain ⟨path, hpath⟩ := Option.isSome_iff_exists.mp (blobFile_isSome hn hfile)
  have hone := hsound.one_line htext' hmem' hn hfile'
  have hlines := hbuilt.appended.lines (safeBlobName n) hword
  rw [hpath] at hlines
  rw [List.filter_append, hlines] at hone
  have hnone : after.filter (fun line => declares (safeBlobName n) line.toList) = [] := (List.cons.inj hone).2
  have hin : line ∈ after.filter (fun line => declares (safeBlobName n) line.toList) :=
    List.mem_filter.mpr ⟨hline, hdeclLine⟩
  rw [hnone] at hin
  cases hin

theorem Sound.clean (hbuilt : Built env all strategies lines after renames)
    (hsound : Sound env (renamedTexts strategies renames) (lines ++ after)) : Clean env all strategies where
  files := by
    intro n hn m hm hne hfile hfile' hsafe
    obtain ⟨text, htext, hmem⟩ := hsound.exists_reference hbuilt hn hfile
    obtain ⟨text', htext', hmem'⟩ := hsound.exists_reference hbuilt hm hfile'
    exact hsound.ne htext htext' hmem hmem' hne hsafe
  missing := fun n hn m hm hne _ hfile hsafe => hsound.missing hbuilt hn hm hne hfile hsafe
  read := by
    intro n hn hfile hident text htext
    rw [Bool.eq_false_iff]
    intro hmet
    have hmem := (hbuilt.met_iff false text (hbuilt.effective_of_file hn hfile hident)).mpr hmet
    have hself := hsound.reference hbuilt htext hmem hn hfile
    rw [if_neg Bool.false_ne_true] at hself
    rw [hself, isIdentifier_safe (blobNames_word n hn).1] at hident
    cases hident
  own := fun n hn hfile text htext arg harg m hm hdecl => hsound.own hbuilt hn hfile htext harg hm hdecl

theorem Built.sound_iff (hbuilt : Built env all strategies lines after renames) :
    Sound env (renamedTexts strategies renames) (lines ++ after) ↔ Clean env all strategies :=
  ⟨fun hsound => hsound.clean hbuilt, fun hclean => hclean.sound hbuilt⟩

end sound

end built

end Blockchecks.BlobSound
