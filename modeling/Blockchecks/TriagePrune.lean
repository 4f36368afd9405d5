import Blockchecks.BlobWords
import Blockchecks.FamilyRegistry
import Blockchecks.TextFile

namespace Blockchecks.TriagePrune

open StrategyText TriageProfiles BlobFilter FamilyRegistry BlobScan BlobWords

/-- The colon-separated options of all lines. -/
def options (text : List Char) : List (List Char) := (text.splitOn '\n').flatMap (fun line => line.splitOn ':')

/-- The options with a colon behind them. -/
def colonOptions (text : List Char) : List (List Char) :=
  (text.splitOn '\n').flatMap (fun line => (line.splitOn ':').dropLast)

/-- The lines with more behind them than one line break. -/
def innerLines : List (List Char) → List (List Char)
  | line :: next :: rest => if next = [] ∧ rest = [] then [] else line :: innerLines (next :: rest)
  | _ => []

/-- The options that a line break follows, and not only at the end of the text. -/
def lineEndOptions (text : List Char) : List (List Char) :=
  (innerLines (text.splitOn '\n')).flatMap (fun line => (line.splitOn ':').getLast?.toList)

section places

variable {sep : Char} {text part line option : List Char} {parts : List (List Char)}

/-- What stands behind a part. -/
def follow (sep : Char) : List (List Char) → List Char
  | [] => []
  | parts => sep :: [sep].intercalate parts

theorem intercalate_follow (sep : Char) (part : List Char) (parts : List (List Char)) :
    [sep].intercalate (part :: parts) = part ++ follow sep parts := by
  cases parts with
  | nil => rw [List.intercalate_singleton, follow, List.append_nil]
  | cons next parts =>
      rw [List.intercalate_cons_cons, List.append_assoc]
      rfl

theorem intercalate_place (sep : Char) (before : List (List Char)) (part : List Char) (after : List (List Char)) :
    ∃ pre, [sep].intercalate (before ++ part :: after) = pre ++ (part ++ follow sep after) := by
  induction before with
  | nil => exact ⟨[], intercalate_follow sep part after⟩
  | cons first before ih =>
      obtain ⟨pre, hpre⟩ := ih
      refine ⟨first ++ sep :: pre, ?_⟩
      have hne : before ++ part :: after ≠ [] := List.append_ne_nil_of_right_ne_nil _ (List.cons_ne_nil _ _)
      rw [List.cons_append, intercalate_follow, List.append_assoc, List.cons_append, ← hpre]
      cases hparts : before ++ part :: after with
      | nil => exact absurd hparts hne
      | cons next parts => rfl

theorem splitOn_place (h : part ∈ text.splitOn sep) : ∃ before after pre,
    text.splitOn sep = before ++ part :: after ∧ text = pre ++ (part ++ follow sep after) := by
  obtain ⟨before, after, hsplit⟩ := List.append_of_mem h
  obtain ⟨pre, hpre⟩ := intercalate_place sep before part after
  refine ⟨before, after, pre, hsplit, ?_⟩
  rw [← hpre, ← hsplit, List.intercalate_splitOn]

theorem mem_innerLines (before : List (List Char)) {next : List Char} {rest : List (List Char)}
    (h : ¬ (next = [] ∧ rest = [])) : line ∈ innerLines (before ++ line :: next :: rest) := by
  induction before with
  | nil =>
      rw [List.nil_append, innerLines, if_neg h]
      exact List.mem_cons_self
  | cons first before ih =>
      cases before with
      | nil =>
          rw [List.cons_append, List.nil_append, innerLines, if_neg fun hnil => List.cons_ne_nil _ _ hnil.2]
          exact List.mem_cons_of_mem _ ih
      | cons second before =>
          rw [List.cons_append, List.cons_append, innerLines, if_neg fun hnil =>
            List.append_ne_nil_of_right_ne_nil before (List.cons_ne_nil line _) hnil.2]
          exact List.mem_cons_of_mem _ ih

/-- An option is at the end of the text, before a colon, or at the end of an inner line. -/
theorem option_place (h : option ∈ options text) : ∃ pre post, text = pre ++ (option ++ post) ∧
    (atEnd post = true ∨ startsWith post ":" = true ∧ option ∈ colonOptions text ∨ option ∈ lineEndOptions text) := by
  obtain ⟨line, hline, hoption⟩ := List.mem_flatMap.mp h
  obtain ⟨linesBefore, linesAfter, linePre, hlines, htext⟩ := splitOn_place hline
  obtain ⟨before, after, optionPre, hoptions, hlineText⟩ := splitOn_place hoption
  refine ⟨linePre ++ optionPre, follow ':' after ++ follow '\n' linesAfter, ?_, ?_⟩
  · rw [htext]
    conv => lhs; rw [hlineText]
    simp only [List.append_assoc]
  · cases after with
    | cons next after =>
        refine Or.inr (Or.inl ⟨rfl, List.mem_flatMap.mpr ⟨line, hline, ?_⟩⟩)
        rw [hoptions, List.dropLast_append_of_ne_nil (List.cons_ne_nil _ _), List.dropLast_cons_cons]
        exact List.mem_append_right _ List.mem_cons_self
    | nil =>
        cases linesAfter with
        | nil => exact Or.inl rfl
        | cons next rest =>
            by_cases hnil : next = [] ∧ rest = []
            · rw [hnil.1, hnil.2]
              exact Or.inl rfl
            · refine Or.inr (Or.inr (List.mem_flatMap.mpr ⟨line, ?_, ?_⟩))
              · rw [hlines]
                exact mem_innerLines linesBefore hnil
              · rw [hoptions, List.getLast?_concat]
                exact List.mem_singleton.mpr rfl

theorem innerLines_subset : innerLines parts ⊆ parts := by
  induction parts with
  | nil => exact List.nil_subset _
  | cons line parts ih =>
      cases parts with
      | nil => exact List.nil_subset _
      | cons next rest =>
          rw [innerLines]
          split
          next => exact List.nil_subset _
          next => exact List.cons_subset_cons line ih

theorem lineEnd_option (h : option ∈ lineEndOptions text) : option ∈ options text := by
  obtain ⟨line, hline, hoption⟩ := List.mem_flatMap.mp h
  exact List.mem_flatMap.mpr ⟨line, innerLines_subset hline, List.mem_of_getLast? (Option.mem_toList.mp hoption)⟩

theorem colon_option (h : option ∈ colonOptions text) : option ∈ options text := by
  obtain ⟨line, hline, hoption⟩ := List.mem_flatMap.mp h
  exact List.mem_flatMap.mpr ⟨line, hline, List.dropLast_subset _ hoption⟩

end places

section tokens

variable {token t : String} {text rest pre : List Char} {n : Nat}

/-- What ends a fooling token. -/
def Terminated (rest : List Char) : Prop := startsWith rest "=" = true ∨ startsWith rest ":" = true ∨ atEnd rest = true

theorem terminated_head (h : Terminated rest) : rest.head?.any isWordChar = false := by
  rcases h with h | h | h
  · obtain ⟨tail, rfl⟩ := List.isPrefixOf_iff_prefix.mp h
    rfl
  · obtain ⟨tail, rfl⟩ := List.isPrefixOf_iff_prefix.mp h
    rfl
  · rcases of_decide_eq_true h with rfl | rfl
    · rfl
    · rfl

theorem token_word (h : t ∈ foolTokens) : IsWord t.toList := by
  have hall : ∀ t ∈ foolTokens, t.toList.all (fun c => isWordChar c == true) = true := by decide
  exact forall_mem_of_all (hall t h)

theorem token_ne_nil (h : t ∈ foolTokens) : t.toList ≠ [] := by
  have hall : ∀ t ∈ foolTokens, t.toList ≠ [] := by decide
  exact hall t h

/-- No token ends with another one. -/
theorem token_suffix (ht : t ∈ foolTokens) (htoken : token ∈ foolTokens) (h : token.toList = pre ++ t.toList) :
    pre = [] := by
  have hall : ∀ token ∈ foolTokens, ∀ t ∈ foolTokens, t.toList <:+ token.toList → token.toList = t.toList := by decide
  have hsame := hall token htoken t ht ⟨pre, h.symm⟩
  rw [h] at hsame
  exact List.append_left_eq_self.mp hsame

theorem foolTokenAt_some (h : foolTokenAt text = some (n, t)) : t ∈ foolTokens ∧ 0 < n ∧ n ≤ text.length ∧
    n ≤ t.toList.length + 1 ∧ ∃ rest, text = t.toList ++ rest ∧ Terminated rest := by
  obtain ⟨token, htoken, hat⟩ := List.exists_of_findSome?_eq_some h
  obtain ⟨hstart, hat⟩ := Option.ite_none_right_eq_some.mp hat
  obtain ⟨rest, rfl⟩ := List.isPrefixOf_iff_prefix.mp hstart
  have hlen := List.length_pos_of_ne_nil (token_ne_nil htoken)
  rw [List.drop_left] at hat
  dsimp only at hat
  split at hat
  next hsep =>
    obtain ⟨rfl, rfl⟩ := Prod.mk.inj (Option.some.inj hat)
    have hrest : rest ≠ [] := by
      rintro rfl
      exact absurd hsep (by decide)
    have hpos := List.length_pos_of_ne_nil hrest
    rw [List.length_append]
    refine ⟨htoken, by omega, by omega, le_rfl, rest, rfl, ?_⟩
    exact (Bool.or_eq_true_iff.mp hsep).imp_right Or.inl
  next =>
    obtain ⟨hend, hat⟩ := Option.ite_none_right_eq_some.mp hat
    obtain ⟨rfl, rfl⟩ := Prod.mk.inj (Option.some.inj hat)
    rw [List.length_append]
    exact ⟨htoken, hlen, by omega, by omega, rest, rfl, Or.inr (Or.inr hend)⟩

/-- Two tokens that end in the same place are one. -/
theorem token_unique {first : String} {a b : List Char} (hfirst : first ∈ foolTokens) (hb : IsWord b)
    (ha : Terminated a) (hrest : Terminated rest) (h : first.toList ++ a = b ++ rest) : first.toList = b := by
  rw [← takeWhile_word (token_word hfirst) (terminated_head ha), h, takeWhile_word hb (terminated_head hrest)]

theorem foolTokenAt_token (ht : t ∈ foolTokens) (hrest : Terminated rest) :
    ∃ n, foolTokenAt (t.toList ++ rest) = some (n, t) := by
  have hsome : (foolTokenAt (t.toList ++ rest)).isSome = true := by
    rw [foolTokenAt, List.findSome?_isSome_iff]
    refine ⟨t, ht, ?_⟩
    have hstart : startsWith (t.toList ++ rest) t = true :=
      List.isPrefixOf_iff_prefix.mpr (List.prefix_append _ _)
    rw [if_pos hstart, List.drop_left]
    dsimp only
    split
    next => rfl
    next hsep =>
      rw [Bool.or_eq_true, not_or] at hsep
      rw [if_pos ((hrest.resolve_left hsep.1).resolve_left hsep.2)]
      rfl
  obtain ⟨⟨n, token⟩, hat⟩ := Option.isSome_iff_exists.mp hsome
  obtain ⟨htoken, -, -, -, tail, htext, htail⟩ := foolTokenAt_some hat
  have hsame := token_unique htoken (token_word ht) htail hrest htext.symm
  exact ⟨n, (String.toList_injective hsame) ▸ hat⟩

theorem finditer_at {α : Type} {matchAt : List Char → Option (Nat × α)} {v : α} (h : matchAt text = some (n, v))
    (hn : 0 < n) (hlen : n ≤ text.length) : finditer matchAt text = v :: finditer matchAt (text.drop n) := by
  have htake : (text.take n).length = n := by rw [List.length_take, Nat.min_eq_left hlen]
  have hne : text.take n ≠ [] := by
    rw [ne_eq, ← List.length_eq_zero_iff, htake]
    omega
  have hsplit : matchAt (text.take n ++ text.drop n) = some ((text.take n).length, v) := by
    rw [List.take_append_drop, htake, h]
  have hsome := finditer_some hne hsplit
  rwa [List.take_append_drop] at hsome

/-- A match before a token ends before it. -/
theorem match_before (ht : t ∈ foolTokens) (hrest : Terminated rest) (hpre : pre ≠ [])
    (h : foolTokenAt (pre ++ (t.toList ++ rest)) = some (n, token)) : n ≤ pre.length := by
  obtain ⟨htoken, -, -, hn, tail, htext, htail⟩ := foolTokenAt_some h
  by_contra hlt
  have hshort : pre.length ≤ token.toList.length := by omega
  have hprefix : pre <+: token.toList :=
    List.prefix_of_prefix_length_le ⟨_, htext⟩ (List.prefix_append _ _) hshort
  obtain ⟨back, hback⟩ := hprefix
  rw [← hback, List.append_assoc, List.append_cancel_left_eq] at htext
  have hword : IsWord back := fun c hc => token_word htoken c (hback ▸ List.mem_append_right _ hc)
  have hsame : t.toList = back := token_unique ht hword hrest htail htext
  exact hpre (token_suffix ht htoken (hsame ▸ hback.symm))

/-- The search finds every token that is terminated. -/
theorem mem_foolingKeys (ht : t ∈ foolTokens) (hrest : Terminated rest) (pre : List Char) :
    t ∈ finditer foolTokenAt (pre ++ (t.toList ++ rest)) := by
  induction hlen : pre.length using Nat.strongRecOn generalizing pre with
  | ind len ih =>
      cases hmatch : foolTokenAt (pre ++ (t.toList ++ rest)) with
      | none =>
          cases pre with
          | nil =>
              obtain ⟨n, hat⟩ := foolTokenAt_token ht hrest
              exact absurd (hmatch.symm.trans hat) (Option.some_ne_none _).symm
          | cons c pre =>
              rw [List.cons_append] at hmatch ⊢
              rw [finditer_none hmatch]
              exact ih pre.length (hlen ▸ Nat.lt_succ_self _) pre rfl
      | some p =>
          obtain ⟨n, token⟩ := p
          obtain ⟨-, hpos, hle, -, -⟩ := foolTokenAt_some hmatch
          rw [finditer_at hmatch hpos hle]
          cases pre with
          | nil =>
              obtain ⟨m, hat⟩ := foolTokenAt_token ht hrest
              have hsame := Option.some.inj (hmatch.symm.trans hat)
              rw [(Prod.mk.inj hsame).2]
              exact List.mem_cons_self
          | cons c pre =>
              have hbefore := match_before ht hrest (List.cons_ne_nil c pre) hmatch
              rw [List.drop_append_of_le_length hbefore]
              refine List.mem_cons_of_mem _ (ih ((c :: pre).drop n).length ?_ _ rfl)
              rw [List.length_drop]
              omega

end tokens

section items

variable (profile : TriageProfile) (scanLevel : String)

def keyOf (option : List Char) : String := foolingKey (String.ofList option)

def HasDeadFooling (strategy : String) : Prop :=
  ∃ option ∈ options strategy.toList, keyOf option ∈ deadFoolingTokens profile

def HasRejectedSplit (strategy : String) : Prop :=
  profile.splitMode ≠ "" ∧ ∃ value : String, "pos=".toList ++ value.toList ∈ options strategy.toList ∧
    value ∉ filterSplitPositions [value] (some profile) scanLevel

/-- A dead option that the expression has no name for, or that stands without a value at
the end of an inner line. -/
def HiddenFooling (strategy : String) : Prop :=
  ∃ option ∈ options strategy.toList, keyOf option ∈ deadFoolingTokens profile ∧
    (keyOf option ∉ foolTokens ∨ option = (keyOf option).toList ∧ option ∈ lineEndOptions strategy.toList)

/-- The position of the first byte with another option or another line behind it. -/
def HiddenSplit (strategy : String) : Prop :=
  profile.splitMode = "sni_marker" ∧
    ("pos=1".toList ∈ colonOptions strategy.toList ∨ "pos=1".toList ∈ lineEndOptions strategy.toList)

/-- No strategy that is kept has a dead option, and pruning again changes nothing. -/
def PrunesDead (items : List StrategyItem) : Prop :=
  (∀ item ∈ pruneItemsByTriage items (some profile) scanLevel,
      ¬ HasDeadFooling profile item.strategy ∧ ¬ HasRejectedSplit profile scanLevel item.strategy) ∧
    pruneItemsByTriage (pruneItemsByTriage items (some profile) scanLevel) (some profile) scanLevel =
      pruneItemsByTriage items (some profile) scanLevel

/-- What an item is pruned for. -/
def Caught (item : StrategyItem) : Prop :=
  (∃ key ∈ strategyFoolingKeys item.strategy, key ∈ deadFoolingTokens profile) ∨
  ttlOk item.strategy profile.dpiHops profile.serverHops = false ∨
  blobOk item.strategy profile (if item.protocol = "" then "tcp" else item.protocol) = false ∨
  (profile.preferContextualSplit = true ∧ staticNumericSplit item.strategy = true) ∨
  (profile.splitMode = "first_byte" ∧ contains item.strategy.toList "sniext" = true) ∨
  (profile.splitMode = "sni_marker" ∧ (search posOneAt item.strategy.toList).isSome = true)

variable {profile scanLevel} {item : StrategyItem} {strategy : String} {option : List Char}

theorem itemSurvives_iff : itemSurvives item profile (deadFoolingTokens profile) profile.dpiHops profile.serverHops
    profile.preferContextualSplit profile.splitMode = true ↔ ¬ Caught profile item := by
  rw [itemSurvives, Caught]
  split
  next hkeys =>
    refine iff_of_false Bool.false_ne_true (not_not_intro (Or.inl ?_))
    simpa only [List.any_eq_true, decide_eq_true_eq] using hkeys
  next hkeys =>
    rw [List.any_eq_true] at hkeys
    simp only [decide_eq_true_eq] at hkeys
    rw [or_iff_right hkeys]
    split
    next httl => exact iff_of_false Bool.false_ne_true (not_not_intro (Or.inl ((Bool.not_eq_true' _).mp httl)))
    next httl =>
      rw [Bool.not_eq_true'] at httl
      rw [or_iff_right httl]
      generalize (if item.protocol = "" then "tcp" else item.protocol) = protocol
      split
      next hblob =>
        exact iff_of_false Bool.false_ne_true (not_not_intro (Or.inl ((Bool.not_eq_true' _).mp hblob)))
      next hblob =>
        rw [Bool.not_eq_true'] at hblob
        rw [or_iff_right hblob]
        split
        next hstatic =>
          exact iff_of_false Bool.false_ne_true (not_not_intro (Or.inl ((Bool.and_eq_true _ _).mp hstatic)))
        next hstatic =>
          rw [Bool.and_eq_true] at hstatic
          rw [or_iff_right hstatic]
          split
          next hfirst => exact iff_of_false Bool.false_ne_true (not_not_intro (Or.inl hfirst))
          next hfirst =>
            rw [or_iff_right hfirst, Bool.not_eq_true', Bool.and_eq_false_iff, decide_eq_false_iff_not, not_and_or,
              Bool.not_eq_true]

theorem mem_prune_iff (items : List StrategyItem) (hbypass : profile.bypassable = true) (hlevel : scanLevel ≠ "full") :
    item ∈ pruneItemsByTriage items (some profile) scanLevel ↔ item ∈ items ∧ ¬ Caught profile item := by
  rw [pruneItemsByTriage, hbypass, decide_eq_false hlevel]
  exact List.mem_filter.trans (and_congr_right fun _ => itemSurvives_iff)

theorem colon_not_mem (h : option ∈ options strategy.toList) : ':' ∉ option := by
  obtain ⟨line, -, hoption⟩ := List.mem_flatMap.mp h
  intro hmem
  rw [List.splitOn_eq_splitOnP] at hoption
  exact absurd (TextFile.mem_splitOnP_not hoption hmem) (by decide)

/-- An option is its name, or its name with a value. -/
theorem option_key (h : ':' ∉ option) : option = (keyOf option).toList ∨
    ∃ value, option = (keyOf option).toList ++ '=' :: value := by
  have hname : (keyOf option).toList = option.takeWhile (· ≠ '=') := by
    have hplain : ∀ c ∈ option.takeWhile (· ≠ '='), decide (c ≠ ':') = true := fun c hc =>
      decide_eq_true fun hcolon => h (hcolon ▸ List.takeWhile_subset _ hc)
    rw [keyOf, foolingKey, String.toList_ofList, String.toList_ofList, List.takeWhile_eq_self_iff.mpr hplain]
  have hsplit : option.takeWhile (· ≠ '=') ++ option.dropWhile (· ≠ '=') = option := List.takeWhile_append_dropWhile
  rw [hname]
  cases hdrop : option.dropWhile (· ≠ '=') with
  | nil =>
      rw [hdrop, List.append_nil] at hsplit
      exact Or.inl hsplit.symm
  | cons c value =>
      have hhead := List.head?_dropWhile_not (fun c => decide (c ≠ '=')) option
      rw [hdrop] at hhead hsplit
      have hc : c = '=' := by simpa using hhead
      exact Or.inr ⟨value, hc ▸ hsplit.symm⟩

theorem deadFooling_caught (h : HasDeadFooling profile item.strategy) :
    Caught profile item ∨ HiddenFooling profile item.strategy := by
  obtain ⟨option, hoption, hdead⟩ := h
  by_cases htoken : keyOf option ∈ foolTokens
  · have hcaught {rest pre : List Char} (hrest : Terminated rest)
        (htext : item.strategy.toList = pre ++ ((keyOf option).toList ++ rest)) : Caught profile item := by
      refine Or.inl ⟨keyOf option, ?_, hdead⟩
      rw [strategyFoolingKeys, htext]
      exact mem_foolingKeys htoken hrest pre
    obtain ⟨pre, post, htext, hplace⟩ := option_place hoption
    rcases option_key (colon_not_mem hoption) with hbare | ⟨value, hvalue⟩
    · rw [hbare] at htext
      rcases hplace with hend | ⟨hcolon, -⟩ | hline
      · exact Or.inl (hcaught (Or.inr (Or.inr hend)) htext)
      · exact Or.inl (hcaught (Or.inr (Or.inl hcolon)) htext)
      · exact Or.inr ⟨option, hoption, hdead, Or.inr ⟨hbare, hline⟩⟩
    · rw [hvalue, List.append_assoc] at htext
      exact Or.inl (hcaught (Or.inl rfl) htext)
  · exact Or.inr ⟨option, hoption, hdead, Or.inl htoken⟩

theorem search_append {α : Type} {matchAt : List Char → Option α} {text : List Char} (pre : List Char)
    (h : (matchAt text).isSome = true) : (search matchAt (pre ++ text)).isSome = true := by
  induction pre with
  | nil =>
      cases text with
      | nil => exact h
      | cons c text => rw [List.nil_append, search, Option.isSome_or, h, Bool.true_or]
  | cons c pre ih => rw [List.cons_append, search, Option.isSome_or, ih, Bool.or_true]

theorem posOneAt_some {rest : List Char} (h : startsWith rest "," = true ∨ atEnd rest = true) :
    (posOneAt ("pos=1".toList ++ rest)).isSome = true := by
  have hstart : startsWith ("pos=1".toList ++ rest) "pos=1" = true :=
    List.isPrefixOf_iff_prefix.mpr (List.prefix_append _ _)
  rw [posOneAt, if_pos hstart, List.drop_left]
  dsimp only
  rw [if_pos (Bool.or_eq_true_iff.mpr h)]
  rfl

theorem rejectedSplit_caught (h : HasRejectedSplit profile scanLevel item.strategy) :
    Caught profile item ∨ HiddenSplit profile item.strategy := by
  obtain ⟨hmode, value, hoption, hrejected⟩ := h
  have hpos : posOk value profile.splitMode = false := by
    rw [filterSplitPositions] at hrejected
    split at hrejected
    next => exact absurd List.mem_cons_self hrejected
    next => rwa [List.mem_filter, and_iff_right List.mem_cons_self, Bool.not_eq_true] at hrejected
  obtain ⟨pre, post, htext, hplace⟩ := option_place hoption
  rw [posOk] at hpos
  split at hpos
  next hfirst =>
    have hvalue := (hasInfix_iff _ _).mp ((Bool.not_eq_false' _).mp hpos)
    have hcontains : contains item.strategy.toList "sniext" = true := by
      refine (hasInfix_iff _ _).mpr (hvalue.trans ⟨pre ++ "pos=".toList, post, ?_⟩)
      rw [htext, List.append_assoc, List.append_assoc, List.append_assoc]
    exact Or.inl (Or.inr (Or.inr (Or.inr (Or.inr (Or.inl ⟨hfirst, hcontains⟩)))))
  next =>
    split at hpos
    next hmarker =>
      have hcaught (h : (search posOneAt item.strategy.toList).isSome = true) : Caught profile item :=
        Or.inr (Or.inr (Or.inr (Or.inr (Or.inr ⟨hmarker, h⟩))))
      rw [Bool.and_eq_false_iff] at hpos
      rcases hpos with hone | hcomma
      · have hvalue : value = "1" := by simpa using hone
        rw [hvalue] at htext hoption hplace
        rcases hplace with hend | ⟨-, hcolon⟩ | hline
        · refine Or.inl (hcaught ?_)
          rw [htext]
          exact search_append pre (posOneAt_some (Or.inr hend))
        · exact Or.inr ⟨hmarker, Or.inl hcolon⟩
        · exact Or.inr ⟨hmarker, Or.inr hline⟩
      · refine Or.inl (hcaught ?_)
        obtain ⟨tail, htail⟩ := List.isPrefixOf_iff_prefix.mp ((Bool.not_eq_false' _).mp hcomma)
        have hone : "pos=".toList ++ value.toList ++ post = "pos=1".toList ++ (',' :: (tail ++ post)) := by
          rw [← htail]
          rfl
        rw [htext, hone]
        exact search_append pre (posOneAt_some (Or.inl rfl))
    next => exact absurd hpos Bool.noConfusion

theorem hiddenSplit_rejected (hlevel : scanLevel ≠ "full") (h : HiddenSplit profile strategy) :
    HasRejectedSplit profile scanLevel strategy := by
  obtain ⟨hmode, hplace⟩ := h
  have hrejected : "1" ∉ filterSplitPositions ["1"] (some profile) scanLevel := by
    rw [filterSplitPositions, hmode, if_neg (by simp [hlevel])]
    decide
  refine ⟨hmode ▸ by decide, "1", ?_, hrejected⟩
  exact hplace.elim colon_option lineEnd_option

theorem prune_twice (items : List StrategyItem) (hbypass : profile.bypassable = true) :
    pruneItemsByTriage (pruneItemsByTriage items (some profile) scanLevel) (some profile) scanLevel =
      pruneItemsByTriage items (some profile) scanLevel := by
  obtain ⟨survives, hprune⟩ : ∃ survives, ∀ items, pruneItemsByTriage items (some profile) scanLevel =
      items.filter survives := ⟨_, fun items => by rw [pruneItemsByTriage, hbypass]; rfl⟩
  rw [hprune, hprune, List.filter_filter]
  simp only [Bool.and_self]

/-- A core with the lines of the ACK drop behind it. -/
def ackDropItem : StrategyItem :=
  ⟨"fake_1", "fake:blob=stun:badsum\n--payload=empty --out-range=s1<d1\npktmod:ip_ttl=1", false, "tls12"⟩

end items

end Blockchecks.TriagePrune
