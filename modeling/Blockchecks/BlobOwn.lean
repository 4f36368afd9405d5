import Blockchecks.BlobDeclare

namespace Blockchecks.BlobOwn

open StrategyText LuaConf NfqwsConfig OrderedDict BlobScan WordRefs BlobWords ConfRewrite BlobRename BlobDeclare ExportNumbers

theorem words_join {w : List Char} {ps : List (Char × List Char)} (hw : IsWord w) (hps : AreWords ps) :
    words (w ++ join ps) = (w, ps) := by
  induction ps generalizing w with
  | nil =>
      rw [join_nil, List.append_nil]
      induction w with
      | nil => rfl
      | cons c w ih =>
          obtain ⟨hc, hw⟩ := List.forall_mem_cons.mp hw
          rw [words, if_pos hc, ih hw]
  | cons p ps ih =>
      obtain ⟨c, v⟩ := p
      obtain ⟨⟨hc, hv⟩, htail⟩ := List.forall_mem_cons.mp hps
      rw [join_cons]
      induction w with
      | nil => rw [List.nil_append, words, if_neg (Bool.eq_false_iff.mp hc), ih hv htail]
      | cons d w ihw =>
          obtain ⟨hd, hw⟩ := List.forall_mem_cons.mp hw
          rw [List.cons_append, words, if_pos hd, ihw hw]

/-- The words of an argument that declares a name. -/
def declaration (name v : List Char) (ps : List (Char × List Char)) : List (Char × List Char) :=
  ('-', []) :: ('-', "blob".toList) :: ('=', name) :: (':', v) :: ps

theorem declares_words {ident : String} (hident : IsWord ident.toList) {arg : List Char} :
    declares ident arg = true ↔ ∃ v ps, words arg = ([], declaration ident.toList v ps) := by
  rw [declares_iff]
  constructor
  · rintro ⟨rest, rfl⟩
    obtain ⟨hv, hps⟩ := words_areWords rest
    refine ⟨(words rest).1, (words rest).2, ?_⟩
    have htext : "--blob=".toList ++ (ident.toList ++ ':' :: rest) =
        [] ++ join (declaration ident.toList (words rest).1 (words rest).2) := by
      simp [declaration, join_words]
    rw [htext]
    refine words_join (fun _ h => (List.not_mem_nil h).elim) ?_
    refine List.forall_mem_cons.mpr ⟨⟨by decide, fun _ h => (List.not_mem_nil h).elim⟩, ?_⟩
    refine List.forall_mem_cons.mpr ⟨⟨by decide, forall_mem_of_all (by decide)⟩, ?_⟩
    refine List.forall_mem_cons.mpr ⟨⟨(by decide : isWordChar '=' = false), hident⟩, ?_⟩
    exact List.forall_mem_cons.mpr ⟨⟨(by decide : isWordChar ':' = false), hv⟩, hps⟩
  · rintro ⟨v, ps, hwords⟩
    refine ⟨v ++ join ps, ?_⟩
    rw [← join_words arg, hwords]
    simp [declaration]

section renamed

variable {orig new : List Char}

theorem renamed_declaration (name v : List Char) (ps : List (Char × List Char)) :
    renamed blobGrammar orig new true [] (declaration name v ps) =
      declaration (if name = orig then new else name) v (renamed blobGrammar orig new true v ps) := by
  by_cases h : name = orig <;> simp [declaration, renamed, blobGrammar, h, isKeyword]

theorem renamed_inv {free : Bool} {w u : List Char} {c : Char} {ps qs : List (Char × List Char)}
    (h : renamed blobGrammar orig new free w ps = (c, u) :: qs) :
    ∃ v rest free', ps = (c, v) :: rest ∧ qs = renamed blobGrammar orig new free' v rest ∧
      (u = v ∧ free' = true ∧ (c == '=' && free && isKeyword w && decide (v = orig)) = false ∨
        v = orig ∧ u = new ∧ free' = false ∧ (c == '=' && free && isKeyword w) = true) := by
  cases ps with
  | nil => cases h
  | cons p rest =>
      obtain ⟨sep, v⟩ := p
      obtain ⟨v', free', hcons, hcase⟩ := renamed_cons (G := blobGrammar) orig new free w sep v rest
      rw [hcons] at h
      obtain ⟨hhead, rfl⟩ := List.cons.inj h
      obtain ⟨rfl, rfl⟩ := Prod.mk.inj hhead
      exact ⟨v, rest, free', rfl, rfl, hcase⟩

/-- A word behind another separator is not renamed. -/
theorem renamed_inv_other {free : Bool} {w u : List Char} {c : Char} {ps qs : List (Char × List Char)} (hc : c ≠ '=')
    (h : renamed blobGrammar orig new free w ps = (c, u) :: qs) :
    ∃ rest, ps = (c, u) :: rest ∧ qs = renamed blobGrammar orig new true u rest := by
  obtain ⟨v, rest, free', rfl, rfl, ⟨rfl, rfl, -⟩ | ⟨-, -, -, hlink⟩⟩ := renamed_inv h
  · exact ⟨rest, rfl, rfl⟩
  · rw [beq_eq_false_iff_ne.mpr hc] at hlink
    cases hlink

/-- Only an argument that declares a name is renamed to one. -/
theorem renamed_declaration_inv {ident v : List Char} {ps qs : List (Char × List Char)}
    (h : renamed blobGrammar orig new true [] ps = declaration ident v qs) :
    ∃ name rest, ps = declaration name v rest ∧ ident = if name = orig then new else name := by
  have hdash : ('-' : Char) ≠ '=' := by decide
  have hcolon : (':' : Char) ≠ '=' := by decide
  obtain ⟨rest, rfl, hfirst⟩ := renamed_inv_other hdash h
  obtain ⟨rest, rfl, hsecond⟩ := renamed_inv_other hdash hfirst.symm
  obtain ⟨name, rest, free, rfl, hthird, hcase⟩ := renamed_inv hsecond.symm
  obtain ⟨rest, rfl, -⟩ := renamed_inv_other hcolon hthird.symm
  refine ⟨name, rest, rfl, ?_⟩
  rcases hcase with ⟨rfl, -, hne⟩ | ⟨rfl, rfl, -⟩
  · rw [if_neg (fun heq => ?_)]
    rw [heq, decide_eq_true rfl, Bool.and_true] at hne
    exact absurd hne (by decide)
  · rw [if_pos rfl]

end renamed

theorem words_sub {orig new : String} (horig : IsWord orig.toList) (hnew : IsWord new.toList) (arg : List Char) :
    words (subFrom (renameAt orig new) 0 arg) =
      ((words arg).1, renamed blobGrammar orig.toList new.toList true (words arg).1 (words arg).2) := by
  obtain ⟨hw, hps⟩ := words_areWords arg
  have hsub := (@sub_renamed orig new horig _ hps _ hw).1
  rw [join_words] at hsub
  rw [hsub]
  exact words_join hw (renamed_areWords hnew hps true _)

theorem declares_sub {orig new ident : String} (horig : IsWord orig.toList) (hnew : IsWord new.toList)
    (hident : IsWord ident.toList) (arg : List Char) :
    declares ident (subFrom (renameAt orig new) 0 arg) = true ↔
      ∃ name, IsWord name.toList ∧ declares name arg = true ∧ (if name = orig then new else name) = ident := by
  rw [declares_words hident, words_sub horig hnew]
  constructor
  · rintro ⟨v, qs, hwords⟩
    obtain ⟨hempty, hrenamed⟩ := Prod.mk.inj hwords
    rw [hempty] at hrenamed
    obtain ⟨name, rest, hps, heq⟩ := renamed_declaration_inv hrenamed
    obtain ⟨name, rfl⟩ : ∃ s : String, s.toList = name := ⟨String.ofList name, String.toList_ofList⟩
    have hname : IsWord name.toList := ((words_areWords arg).2 ('=', name.toList) (by rw [hps]; simp [declaration])).2
    refine ⟨name, hname, (declares_words hname).mpr ⟨v, rest, ?_⟩, String.toList_injective ?_⟩
    · rw [← hps, ← hempty]
    · rw [heq]
      by_cases heq : name = orig
      · rw [if_pos heq, if_pos (congrArg String.toList heq)]
      · rw [if_neg heq, if_neg (fun h => heq (String.toList_injective h))]
  · rintro ⟨name, hname, hdecl, rfl⟩
    obtain ⟨v, ps, hwords⟩ := (declares_words hname).mp hdecl
    refine ⟨v, renamed blobGrammar orig.toList new.toList true v ps, ?_⟩
    rw [hwords, renamed_declaration]
    by_cases heq : name = orig
    · rw [if_pos heq, if_pos (congrArg String.toList heq)]
    · rw [if_neg heq, if_neg (fun h => heq (String.toList_injective h))]

/-- What a name becomes under one replacement after the other. -/
def rename (entries : List (String × String)) (name : String) : String :=
  entries.foldl (fun name e => if name = e.1 then e.2 else name) name

theorem declares_rewriteText {entries : List (String × String)} (hentries : AllWords entries) {ident : String}
    (hident : IsWord ident.toList) (arg : List Char) : declares ident (rewriteText entries arg) = true ↔
      ∃ name, IsWord name.toList ∧ declares name arg = true ∧ rename entries name = ident := by
  induction entries generalizing arg with
  | nil =>
      constructor
      · exact fun h => ⟨ident, hident, h, rfl⟩
      · rintro ⟨name, -, h, rfl⟩
        exact h
  | cons e entries ih =>
      obtain ⟨⟨horig, hnew⟩, htail⟩ := List.forall_mem_cons.mp hentries
      rw [rewriteText, List.foldl_cons, ← rewriteText, ih htail]
      constructor
      · rintro ⟨between, hbetween, hdecl, rfl⟩
        obtain ⟨name, hname, hown, rfl⟩ := (declares_sub horig hnew hbetween arg).mp hdecl
        exact ⟨name, hname, hown, rfl⟩
      · rintro ⟨name, hname, hdecl, rfl⟩
        have hbetween : IsWord (if name = e.1 then e.2 else name).toList := by
          split
          · exact hnew
          · exact hname
        exact ⟨_, hbetween, (declares_sub horig hnew hbetween arg).mpr ⟨name, hname, hdecl, rfl⟩, rfl⟩

section lines

variable {ident : String}

theorem declares_escape (hident : IsWord ident.toList) (arg : List Char) :
    declares ident (escapeConfLt arg) = declares ident arg := by
  have hplain (c : Char) (hc : isWordChar c = false) (hne : c ∉ "--blob=:".toList) :
      c ∉ ("--blob=" ++ ident ++ ":").toList := by
    rw [String.toList_append, String.toList_append]
    intro h
    rcases List.mem_append.mp h with h | h
    · rcases List.mem_append.mp h with h | h
      · exact hne (List.mem_append_left [':'] h)
      · rw [hident c h] at hc
        cases hc
    · exact hne (List.mem_append_right "--blob=".toList h)
  rw [declares, declares, startsWith, startsWith,
    isPrefixOf_escape (hplain '\\' (by decide) (by decide)) (hplain '<' (by decide) (by decide))]

/-- A desync line declares nothing. -/
theorem declares_desync (text : List Char) : declares ident ("--lua-desync=".toList ++ text) = false :=
  declares_none rfl

/-- Among the arguments of one line, whichever builder reads it. -/
theorem declared_iff (hident : IsWord ident.toList) (cli : Bool) (line desync : List Char) :
    (∃ arg ∈ if line = [] then []
        else if cli = true then (splitCliArgs line).map (fun cli => String.ofList (sanitizeArgForConf cli))
        else [String.ofList ("--lua-desync=".toList ++ desync)], declares ident arg.toList = true) ↔
      ∃ arg ∈ if cli = true then splitCliArgs line else [], declares ident arg = true := by
  have hnil : ∀ p : List Char → Prop, ¬ ∃ arg ∈ [], p arg := by
    rintro p ⟨_, h, _⟩
    exact List.not_mem_nil h
  by_cases hempty : line = []
  · have hnone : (if cli = true then splitCliArgs line else []) = [] := by
      rw [hempty]
      cases cli <;> rfl
    rw [if_pos hempty, hnone]
    refine iff_of_false ?_ (hnil _)
    rintro ⟨_, h, _⟩
    exact List.not_mem_nil h
  · rw [if_neg hempty]
    cases cli with
    | true =>
        simp only [if_true, List.mem_map, exists_exists_and_eq_and, String.toList_ofList, sanitizeArgForConf,
          declares_escape hident]
    | false =>
        refine iff_of_false ?_ (hnil _)
        rintro ⟨arg, harg, hdecl⟩
        rw [if_neg Bool.false_ne_true, List.mem_singleton] at harg
        rw [harg, String.toList_ofList, declares_desync] at hdecl
        cases hdecl

/-- The lines that a builder makes of a strategy, with all of them read as arguments or
only those that begin with two dashes. -/
def ownLines (all : Bool) (strategy : String) : List String :=
  if all then cliLines strategy else inlineLines strategy

theorem exists_flatMap {α β γ : Type} {l : List α} {f : α → List β} {g : α → List γ} {p : β → Prop} {q : γ → Prop}
    (h : ∀ a ∈ l, (∃ b ∈ f a, p b) ↔ ∃ c ∈ g a, q c) : (∃ b ∈ l.flatMap f, p b) ↔ ∃ c ∈ l.flatMap g, q c := by
  constructor
  · rintro ⟨b, hb, hp⟩
    obtain ⟨a, ha, hb⟩ := List.mem_flatMap.mp hb
    obtain ⟨c, hc, hq⟩ := (h a ha).mp ⟨b, hb, hp⟩
    exact ⟨c, List.mem_flatMap.mpr ⟨a, ha, hc⟩, hq⟩
  · rintro ⟨c, hc, hq⟩
    obtain ⟨a, ha, hc⟩ := List.mem_flatMap.mp hc
    obtain ⟨b, hb, hp⟩ := (h a ha).mpr ⟨c, hc, hq⟩
    exact ⟨b, List.mem_flatMap.mpr ⟨a, ha, hb⟩, hp⟩

theorem own_declared_iff (hident : IsWord ident.toList) (all : Bool) (strategy : String) :
    (∃ line ∈ ownLines all strategy, declares ident line.toList = true) ↔
      ∃ arg ∈ cliArgs all strategy.toList, declares ident arg = true := by
  cases all with
  | true => exact exists_flatMap (fun rawLine _ => declared_iff hident true (strip rawLine) [])
  | false =>
      refine exists_flatMap (fun rawLine _ => ?_)
      exact declared_iff hident (startsWith (strip rawLine) "--") (strip rawLine) (escapeConfLt (strip rawLine))

theorem block_declared_iff (hident : IsWord ident.toList) (strategy : String) (n : Nat) :
    (∃ line ∈ appendStrategyDesyncs strategy n, declares ident line.toList = true) ↔
      ∃ arg ∈ cliArgs false strategy.toList, declares ident arg = true := by
  refine exists_flatMap (fun rawLine _ => ?_)
  exact declared_iff hident (startsWith (strip rawLine) "--") (strip rawLine) _

end lines

end Blockchecks.BlobOwn
