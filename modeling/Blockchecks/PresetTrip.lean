import Blockchecks.ProviderImport
import Blockchecks.UserMatrix
import Mathlib.Data.List.Flatten

namespace Blockchecks.PresetTrip

open StrategyText LuaConf ExportConf TextLines TextFile ProviderImport UserMatrix

abbrev Text := List Char

/-- A text without newlines. -/
abbrev Row := { text : Text // ∀ c ∈ text, isNewline c = false }

/-- A summary with one list of strategies. -/
def bucketSummary (providerId generatedAt : Row) (proto : String) (ss : List Text) : Summary :=
  ⟨providerId.1, generatedAt.1, [(proto, ss)], []⟩

/-- What is loaded from the file of a protocol; without a bucket there is none. -/
def loaded (providerId generatedAt : Row) (pre proto : String) (ss : List Text) : List Text :=
  match (writeShortlistPresets (bucketSummary providerId generatedAt proto ss) pre).find?
      (fun p => p.proto = proto) with
  | some preset => fromFile preset.text
  | none => []

/-- The generator yields the strategies, up to its limits, from the merged matrix. -/
def Yielded (cmdLabel : Text → Text → Text) (matrix : Text) (ss : List Text) : Prop :=
  ∀ scanLevel maxCount, scanLevel ≠ "single" →
    (splitlines (universalNewlines matrix)).length ≤ maxCount →
    ∀ s ∈ ss, ∃ item ∈ generate cmdLabel "tls12" scanLevel maxCount matrix, item.strategy = s

/-- A strategy that a preset file carries. -/
structure Loads (s : Text) : Prop where
  normal : Normal s
  nonempty : s ≠ []
  oneLine : ∀ c ∈ s, isNewline c = false
  noLiteral : contains s "\\n" = false

/-- A strategy that the matrix has already stands in a section of its lane; a
new one goes into the last section. -/
def Placed (lines : List Text) (s : Text) : Prop :=
  (s ∈ existingLines lines → ∃ before raw after, lines = before ++ raw :: after ∧ strip raw = s ∧
    keepMatrixLine "tls12" s (currentAfter none before) = true) ∧
  (s ∉ existingLines lines → keepMatrixLine "tls12" s (currentAfter none lines) = true)

theorem placed_old {lines : List Text} {s : Text} (hold : s ∈ existingLines lines) :
    Placed lines s ↔ ∃ before raw after, lines = before ++ raw :: after ∧ strip raw = s ∧
      keepMatrixLine "tls12" s (currentAfter none before) = true :=
  ⟨fun h => h.1 hold, fun h => ⟨fun _ => h, fun hnew => absurd hold hnew⟩⟩

theorem placed_new {lines : List Text} {s : Text} (hnew : s ∉ existingLines lines) :
    Placed lines s ↔ keepMatrixLine "tls12" s (currentAfter none lines) = true :=
  ⟨fun h => h.2 hnew, fun h => ⟨fun hold => absurd hold hnew, fun _ => h⟩⟩

def lineItems (part : Text) : List Text :=
  if strip part ≠ [] ∧ startsWith (strip part) "#" = false then [unescapeNewlines (strip part)] else []

/-- The strategies that a text gives as a part of a preset file. -/
def items (text : Text) : List Text := (text.splitOnP isNewline).flatMap lineItems

variable {s text part : Text} {ss lines : List Text}

theorem flatMap_lineItems_filter (parts : List Text) :
    (parts.filter (· ≠ [])).flatMap lineItems = parts.flatMap lineItems := by
  induction parts with
  | nil => rfl
  | cons part parts ih =>
      rw [List.filter_cons, List.flatMap_cons]
      split
      · rw [List.flatMap_cons, ih]
      next hpart =>
        have hnil : part = [] := by simpa using hpart
        rw [ih, hnil]
        rfl

theorem fromFile_eq (text : Text) : fromFile text = items text := by
  obtain ⟨part, parts, parts', h, h', hblank⟩ := splitOn_universalNewlines text
  have hlines (parts : List Text) : ((parts.map strip).filter
      (fun line => line ≠ [] && !startsWith line "#")).map unescapeNewlines = parts.flatMap lineItems := by
    induction parts with
    | nil => rfl
    | cons part parts ih =>
        rw [List.map_cons, List.filter_cons, List.flatMap_cons, lineItems, ← ih]
        by_cases hpart : strip part ≠ [] ∧ startsWith (strip part) "#" = false
        · rw [if_pos hpart, if_pos (by simp [hpart])]
          rfl
        · rw [if_neg hpart, if_neg (by simpa using hpart)]
          rfl
  rw [fromFile, hlines, h, items, h', List.flatMap_cons, List.flatMap_cons,
    ← flatMap_lineItems_filter parts, hblank, flatMap_lineItems_filter]

theorem items_append (a b : Text) : items (a ++ '\n' :: b) = items a ++ items b := by
  rw [items, List.splitOnP_append_cons a b (by decide), List.flatMap_append]
  rfl

theorem items_joinLines (h : lines ≠ []) : items (joinLines lines ++ ['\n']) = lines.flatMap items := by
  induction lines with
  | nil => exact absurd rfl h
  | cons line lines ih =>
      cases lines with
      | nil =>
          rw [joinLines, List.intercalate_singleton, items_append, List.flatMap_singleton]
          exact List.append_nil _
      | cons next lines =>
          rw [joinLines, List.intercalate_cons_cons, List.append_assoc, List.append_assoc,
            List.singleton_append, items_append, List.flatMap_cons]
          exact congrArg _ (ih (List.cons_ne_nil _ _))

theorem strip_cons {c : Char} (hc : isSpace c = false) (rest : Text) : ∃ rest', strip (c :: rest) = c :: rest' := by
  rw [strip, List.dropWhile_cons_of_neg (Bool.eq_false_iff.mp hc), List.reverse_cons, List.dropWhile_append]
  split
  · rw [List.dropWhile_cons_of_neg (Bool.eq_false_iff.mp hc)]
    exact ⟨[], rfl⟩
  · rw [List.reverse_append]
    exact ⟨_, rfl⟩

/-- A comment line gives nothing. -/
theorem items_comment (rest : Text) (h : ∀ c ∈ rest, isNewline c = false) : items ('#' :: rest) = [] := by
  have hline : ∀ c ∈ '#' :: rest, isNewline c = false := by
    intro c hc
    rcases List.mem_cons.mp hc with rfl | hc
    · decide
    · exact h c hc
  obtain ⟨rest', hrest⟩ := strip_cons (by decide : isSpace '#' = false) rest
  rw [items, List.splitOnP_eq_singleton hline, List.flatMap_singleton, lineItems, hrest]
  exact if_neg (fun hand => Bool.noConfusion hand.2)

theorem items_header (providerId generatedAt : Row) (proto : String) (ss : List Text) :
    (header (bucketSummary providerId generatedAt proto ss)).flatMap items = [] := by
  have hname : items ("# Imported from provider_summary (".toList ++ providerId.1 ++ [')']) = [] := by
    refine items_comment (" Imported from provider_summary (".toList ++ providerId.1 ++ [')']) ?_
    intro c hc
    rcases List.mem_append.mp hc with hc | hc
    · rcases List.mem_append.mp hc with hc | hc
      · exact forall_mem_of_all (by decide) c hc
      · exact providerId.2 c hc
    · rw [List.mem_singleton.mp hc]
      decide
  have hdate : items ("# generated_at: ".toList ++ generatedAt.1) = [] := by
    refine items_comment (" generated_at: ".toList ++ generatedAt.1) ?_
    intro c hc
    rcases List.mem_append.mp hc with hc | hc
    · exact forall_mem_of_all (by decide) c hc
    · exact generatedAt.2 c hc
  rw [header, List.flatMap_cons, List.flatMap_cons, List.flatMap_singleton]
  change items ("# Imported from provider_summary (".toList ++ providerId.1 ++ [')']) ++
    (items ("# generated_at: ".toList ++ generatedAt.1) ++ items []) = []
  rw [hname, hdate]
  rfl

theorem loaded_eq (providerId generatedAt : Row) (pre proto : String) (ss : List Text) :
    loaded providerId generatedAt pre proto ss = (ss.foldl addLine []).flatMap items := by
  have hextract : extractStrategies (bucketSummary providerId generatedAt proto ss) =
      if ss.foldl addLine [] ≠ [] then [(proto, ss.foldl addLine [])] else [] := by
    rw [extractStrategies, bucketSummary]
    simp only [List.map_cons, List.map_nil, List.flatMap_nil, List.foldl_nil, List.filter_cons,
      List.filter_nil, decide_eq_true_eq]
  rw [loaded, writeShortlistPresets, hextract]
  by_cases hbucket : ss.foldl addLine [] = []
  · rw [if_neg (not_not.mpr hbucket), hbucket]
    rfl
  · rw [if_pos hbucket, List.map_singleton, List.find?_singleton, if_pos (decide_eq_true rfl)]
    simp only
    rw [fromFile_eq, items_joinLines (List.append_ne_nil_of_right_ne_nil _ hbucket),
      List.flatMap_append, items_header, List.nil_append]

section size

/-! A part of a file gives at most as many characters as it has. -/

theorem length_flatMap_le {g : Text → List Text} {xs : List Text}
    (h : ∀ x ∈ xs, (g x).flatten.length ≤ x.length) :
    (xs.flatMap g).flatten.length ≤ xs.flatten.length := by
  induction xs with
  | nil => exact Nat.le_refl 0
  | cons x xs ih =>
      have hx := h x List.mem_cons_self
      have hxs := ih (fun y hy => h y (List.mem_cons_of_mem _ hy))
      rw [List.flatMap_cons, List.flatten_append, List.flatten_cons, List.length_append, List.length_append]
      omega

/-- Where nothing is lost in all, nothing is lost anywhere. -/
theorem le_of_length_flatMap {g : Text → List Text} {xs : List Text}
    (h : ∀ x ∈ xs, (g x).flatten.length ≤ x.length)
    (hle : xs.flatten.length ≤ (xs.flatMap g).flatten.length) :
    ∀ x ∈ xs, x.length ≤ (g x).flatten.length := by
  induction xs with
  | nil => exact fun _ hx => absurd hx List.not_mem_nil
  | cons x xs ih =>
      have hx := h x List.mem_cons_self
      have hxs := length_flatMap_le (fun y hy => h y (List.mem_cons_of_mem _ hy))
      rw [List.flatMap_cons, List.flatten_append, List.flatten_cons, List.length_append,
        List.length_append] at hle
      intro y hy
      rcases List.mem_cons.mp hy with rfl | hy
      · omega
      · exact ih (fun z hz => h z (List.mem_cons_of_mem _ hz)) (by omega) y hy

theorem length_lineItems_le (part : Text) : (lineItems part).flatten.length ≤ part.length := by
  have hstrip := (infix_strip part).length_le
  rw [lineItems]
  split
  · rw [List.flatten_singleton]
    rcases unescapeNewlines_eq_or_shorter (strip part) with h | h
    · rw [h]
      exact hstrip
    · omega
  · exact Nat.zero_le _

theorem length_splitOnP_le (text : Text) (p : Char → Bool) : (text.splitOnP p).flatten.length ≤ text.length := by
  rw [flatten_splitOnP]
  exact List.length_filter_le _ _

theorem length_items_le (text : Text) : (items text).flatten.length ≤ text.length :=
  Nat.le_trans (length_flatMap_le (fun part _ => length_lineItems_le part)) (length_splitOnP_le text isNewline)

/-- A text that gives all its characters is one line, and no comment or escape stands in it. -/
theorem oneLine_of_length (hne : text ≠ []) (h : text.length ≤ (items text).flatten.length) :
    (∀ c ∈ text, isNewline c = false) ∧ strip text = text ∧ contains text "\\n" = false := by
  have hsplit := length_flatMap_le (fun part (_ : part ∈ text.splitOnP isNewline) => length_lineItems_le part)
  have hfilter : text.length ≤ (text.filter (fun c => !isNewline c)).length := by
    rw [← flatten_splitOnP]
    exact Nat.le_trans h hsplit
  have hline : ∀ c ∈ text, isNewline c = false := by
    intro c hc
    have heq : text.filter (fun c => !isNewline c) = text :=
      List.filter_sublist.eq_of_length_le hfilter
    have := (List.filter_eq_self.mp heq) c hc
    simpa using this
  refine ⟨hline, ?_⟩
  rw [items, List.splitOnP_eq_singleton hline, List.flatMap_singleton, lineItems] at h
  split at h
  · rw [List.flatten_singleton] at h
    have hstrip := (infix_strip text).length_le
    rcases unescapeNewlines_eq_or_shorter (strip text) with hsame | hshort
    · rw [hsame] at h
      have hself : strip text = text := (strip_eq_or_shorter text).resolve_right (Nat.not_lt.mpr h)
      rw [hself] at hsame
      exact ⟨hself, (unescapeNewlines_eq_self_iff text).mp hsame⟩
    · omega
  · exact absurd (List.length_eq_zero_iff.mp (Nat.le_zero.mp h)) hne

end size

theorem items_loads (h : Loads s) : items s = [s] := by
  rw [items, List.splitOnP_eq_singleton h.oneLine, List.flatMap_singleton, lineItems, h.normal.stripped,
    if_pos ⟨h.nonempty, h.normal.noComment⟩, (unescapeNewlines_eq_self_iff s).mpr h.noLiteral]

theorem ne_nil_of_mem_items (h : s ∈ items text) : s ≠ [] := by
  obtain ⟨part, _, hpart⟩ := List.mem_flatMap.mp h
  rw [lineItems] at hpart
  split at hpart
  next hline =>
    rw [List.mem_singleton.mp hpart]
    exact unescapeNewlines_ne_nil hline.1
  · exact absurd hpart List.not_mem_nil

theorem bucket_eq (hss : ss.Nodup) (h : ∀ s ∈ ss, Loads s) : ss.foldl addLine [] = ss := by
  have hbucket : ss.foldl addLine [] = [] ++ ss :=
    foldl_addLine_append (fun s hs => ⟨(h s hs).normal, (h s hs).nonempty⟩) hss
  exact hbucket

/-- The first half of the trip: a preset file gives the strategies back if and
only if it can carry each of them. -/
theorem loads_back_iff (providerId generatedAt : Row) (pre proto : String) (hss : ss.Nodup) :
    loaded providerId generatedAt pre proto ss = ss ↔ ∀ s ∈ ss, Loads s := by
  rw [loaded_eq]
  constructor
  · intro heq
    have hblank : ∀ s ∈ ss, s ≠ [] := by
      intro s hs
      rw [← heq] at hs
      obtain ⟨text, _, htext⟩ := List.mem_flatMap.mp hs
      exact ne_nil_of_mem_items htext
    obtain ⟨kept, hkept, hsub, _⟩ := foldl_addLine_sublist ss []
    rw [hkept, List.nil_append] at heq
    have hle (s : Text) : (items (normalizeStrategy s)).flatten.length ≤ s.length :=
      Nat.le_trans (length_items_le _) (length_normalizeStrategy_le s)
    have hall : ss.flatten.length ≤
        (ss.flatMap (fun s => items (normalizeStrategy s))).flatten.length := by
      have hlen := (hsub.flatMap items).flatten.length_le
      rw [heq, List.flatMap_map] at hlen
      exact hlen
    intro s hs
    have hs' := le_of_length_flatMap (fun s _ => hle s) hall s hs
    have hnormal := normal_of_length (hblank s hs) (Nat.le_trans hs' (length_items_le _))
    rw [normalizeStrategy_eq_self hnormal] at hs'
    obtain ⟨hline, _, hliteral⟩ := oneLine_of_length (hblank s hs) hs'
    exact ⟨hnormal, hblank s hs, hline, hliteral⟩
  · intro h
    rw [bucket_eq hss h]
    clear hss
    induction ss with
    | nil => rfl
    | cons s ss ih =>
        rw [List.flatMap_cons, items_loads (h s List.mem_cons_self),
          ih (fun t ht => h t (List.mem_cons_of_mem _ ht))]
        rfl

/-- The lines of the merged matrix: the old ones and the new strategies. -/
theorem foldl_mergeLine (merged : List Text × List Text) (hss : ss.Nodup) :
    (ss.foldl mergeLine merged).1 = merged.1 ++ ss.filter (fun s => s ∉ merged.2) := by
  induction ss generalizing merged with
  | nil => exact (List.append_nil _).symm
  | cons s ss ih =>
      obtain ⟨hs, hrest⟩ := List.nodup_cons.mp hss
      rw [List.foldl_cons, ih _ hrest, mergeLine, List.filter_cons]
      by_cases hin : s ∈ merged.2
      · rw [if_pos hin, if_neg (by simpa using hin)]
      · rw [if_neg hin, if_pos (by simpa using hin), List.append_assoc, List.singleton_append]
        have hsame : ss.filter (fun t => t ∉ merged.2 ++ [s]) = ss.filter (fun t => t ∉ merged.2) := by
          refine List.filter_congr (fun t ht => ?_)
          have hne : t ≠ s := fun heq => hs (heq ▸ ht)
          simp [hne]
        rw [hsame]

theorem merged_eq (providerId generatedAt : Row) (matrix : Option Text) (hss : ss.Nodup)
    (h : ∀ s ∈ ss, Loads s) :
    mergeIntoUserMatrix (bucketSummary providerId generatedAt "tls12" ss) matrix true =
      joinLines (matrixLines matrix ++
        ss.filter (fun s => s ∉ existingLines (matrixLines matrix))) ++ ['\n'] := by
  have hbuckets : ["tls12", "tls13", "http", "quic", "udp_voice"].flatMap (fun proto =>
      ((extractStrategies (bucketSummary providerId generatedAt "tls12" ss)).lookup proto).getD []) =
      ss := by
    rw [extractStrategies, bucketSummary]
    simp only [List.map_cons, List.map_nil, List.flatMap_nil, List.foldl_nil, bucket_eq hss h]
    by_cases hnil : ss = []
    · rw [hnil]
      decide
    · rw [List.filter_cons, if_pos (decide_eq_true hnil)]
      simp [List.lookup_cons]
  rw [mergeIntoUserMatrix]
  simp only [hbuckets, if_true]
  rw [foldl_mergeLine _ hss]

theorem readLine_loads (h : Loads s) : readLine s = .strategy s := by
  have hdash : s ≠ "---".toList := by
    intro heq
    have := h.normal.noOption
    rw [heq] at this
    exact absurd this (by decide)
  have hsection : parseMatrixSection s = none := by
    rw [parseMatrixSection.eq_def]
    split
    · exact absurd h.normal.noComment (by simp [startsWith])
    · rfl
  have hline : ¬ (s = [] ∨ s = "---".toList) := fun hor => hor.elim h.nonempty hdash
  rw [readLine, h.normal.stripped]
  simp only [if_neg hline, hsection, h.normal.noComment, Bool.false_eq_true, if_false,
    (unescapeNewlines_eq_self_iff s).mpr h.noLiteral]

theorem currentAfter_loads (current : Option Text) (h : ∀ s ∈ lines, Loads s) :
    currentAfter current lines = current := by
  induction lines with
  | nil => rfl
  | cons s lines ih =>
      rw [currentAfter, readLine_loads (h s List.mem_cons_self)]
      exact ih (fun t ht => h t (List.mem_cons_of_mem _ ht))

/-- A line gives a strategy without newlines exactly if it is that strategy. -/
theorem readLine_eq_iff (h : Loads s) (raw : Text) : readLine raw = .strategy s ↔ strip raw = s := by
  constructor
  · intro hread
    rw [readLine] at hread
    split at hread
    · cases hread
    · split at hread
      · cases hread
      · split at hread
        · cases hread
        · have htext : unescapeNewlines (strip raw) = s := Line.strategy.inj hread
          by_cases hliteral : contains (strip raw) "\\n" = false
          · rw [← htext]
            exact ((unescapeNewlines_eq_self_iff (strip raw)).mpr hliteral).symm
          · have hnewline := newline_mem_unescapeNewlines (Bool.not_eq_false _ ▸ hliteral)
            rw [htext] at hnewline
            exact absurd (h.oneLine '\n' hnewline) (by decide)
  · intro hraw
    have hself := readLine_loads h
    rw [readLine, h.normal.stripped] at hself
    rw [readLine, hraw]
    exact hself

theorem yielded_iff (cmdLabel : Text → Text → Text) (text : Text) (ss : List Text) :
    Yielded cmdLabel text ss ↔ ∀ s ∈ ss, ∃ before raw after,
      splitlines (universalNewlines text) = before ++ raw :: after ∧ readLine raw = .strategy s ∧
        keepMatrixLine "tls12" s (currentAfter none before) = true := by
  have htake {scanLevel : String} {maxCount : Nat}
      (hcount : (splitlines (universalNewlines text)).length ≤ maxCount) :
      generate cmdLabel "tls12" scanLevel maxCount text =
        iterUserMatrixItems cmdLabel "tls12" scanLevel none (splitlines (universalNewlines text)) :=
    List.take_of_length_le (Nat.le_trans (length_iter_le _ _ _ _) hcount)
  constructor
  · intro h s hs
    have hyield := h "fast" _ (by decide) (Nat.le_refl _) s hs
    rw [htake (Nat.le_refl _)] at hyield
    exact (mem_iter_iff (by decide)).mp hyield
  · intro h scanLevel maxCount hlevel hcount s hs
    rw [htake hcount]
    exact (mem_iter_iff hlevel).mpr (h s hs)

theorem unbroken_matrixLines (matrix : Option Text) :
    ∀ line ∈ matrixLines matrix, ∀ c ∈ line, isLineBreak c = false := by
  intro line hline c hc
  cases matrix with
  | none => exact absurd hline List.not_mem_nil
  | some text => exact mem_splitlines hline hc

/-- A line that is a strategy counts as an existing one. -/
theorem mem_existingLines_iff (h : Loads s) : s ∈ existingLines lines ↔ ∃ raw ∈ lines, strip raw = s := by
  rw [existingLines, List.mem_map]
  constructor
  · rintro ⟨raw, hraw, hstrip⟩
    exact ⟨raw, (List.mem_filter.mp hraw).1, hstrip⟩
  · rintro ⟨raw, hraw, rfl⟩
    refine ⟨raw, List.mem_filter.mpr ⟨hraw, ?_⟩, rfl⟩
    have hno : startsWith raw "#" = false := by
      refine Bool.eq_false_iff.mpr (fun hcomment => ?_)
      obtain ⟨rest, hrest⟩ := List.isPrefixOf_iff_prefix.mp hcomment
      obtain ⟨rest', hstrip⟩ := strip_cons (by decide : isSpace '#' = false) rest
      have hhead := h.normal.noComment
      rw [← hrest] at hhead
      change startsWith (strip ('#' :: rest)) "#" = false at hhead
      rw [hstrip] at hhead
      exact absurd hhead (by simp [startsWith])
    rw [Bool.and_eq_true, decide_eq_true_iff, hno]
    exact ⟨h.nonempty, rfl⟩

/-- A strategy is kept in the old lines or among the new ones. -/
theorem kept_old_or_new (hlines : List Text) (h : ∀ s ∈ ss, Loads s) (hs : s ∈ ss) :
    (∃ before raw after,
      hlines ++ ss.filter (fun s => s ∉ existingLines hlines) = before ++ raw :: after ∧
        readLine raw = .strategy s ∧ keepMatrixLine "tls12" s (currentAfter none before) = true) ↔
      (∃ before raw after, hlines = before ++ raw :: after ∧ readLine raw = .strategy s ∧
        keepMatrixLine "tls12" s (currentAfter none before) = true) ∨
      (s ∉ existingLines hlines ∧ keepMatrixLine "tls12" s (currentAfter none hlines) = true) := by
  have hnew : ∀ t ∈ ss.filter (fun s => s ∉ existingLines hlines), Loads t :=
    fun t ht => h t (List.mem_of_mem_filter ht)
  have hiter (current : Option Text) (ls : List Text) :=
    @mem_iter_iff (fun _ t => t) "tls12" "fast" current ls s (by decide)
  rw [← hiter, iter_append (by decide)]
  simp only [List.mem_append, or_and_right, exists_or, hiter]
  refine or_congr_right ⟨?_, ?_⟩
  · rintro ⟨before, raw, after, heq, hraw, hkeep⟩
    have hin : raw ∈ ss.filter (fun s => s ∉ existingLines hlines) :=
      heq ▸ List.mem_append_right _ List.mem_cons_self
    have hbefore : ∀ t ∈ before, Loads t := fun t ht => hnew t (heq ▸ List.mem_append_left _ ht)
    rw [readLine_loads (hnew raw hin), Line.strategy.injEq] at hraw
    rw [currentAfter_loads _ hbefore] at hkeep
    rw [hraw] at hin
    exact ⟨of_decide_eq_true (List.mem_filter.mp hin).2, hkeep⟩
  · rintro ⟨hold, hkeep⟩
    have hin : s ∈ ss.filter (fun s => s ∉ existingLines hlines) :=
      List.mem_filter.mpr ⟨hs, decide_eq_true hold⟩
    obtain ⟨before, after, heq⟩ := List.append_of_mem hin
    have hbefore : ∀ t ∈ before, Loads t := fun t ht => hnew t (heq ▸ List.mem_append_left _ ht)
    exact ⟨before, s, after, heq, readLine_loads (h s hs), by rw [currentAfter_loads _ hbefore]; exact hkeep⟩

/-- Where every line comes back, a strategy is yielded if it is well placed. -/
theorem yields_iff_placed (hlines : List Text) (h : ∀ s ∈ ss, Loads s) (hs : s ∈ ss) :
    (∃ before raw after,
      hlines ++ ss.filter (fun s => s ∉ existingLines hlines) = before ++ raw :: after ∧
        readLine raw = .strategy s ∧ keepMatrixLine "tls12" s (currentAfter none before) = true) ↔
      Placed hlines s := by
  have hread (raw : Text) : readLine raw = .strategy s ↔ strip raw = s := readLine_eq_iff (h s hs) raw
  rw [kept_old_or_new hlines h hs]
  simp only [hread]
  by_cases hold : s ∈ existingLines hlines
  · rw [placed_old hold]
    exact or_iff_left (fun hand => hand.1 hold)
  · rw [placed_new hold]
    constructor
    · rintro (⟨before, raw, after, heq, hstrip, _⟩ | hand)
      · exact absurd ((mem_existingLines_iff (h s hs)).mpr ⟨raw, heq ▸ List.mem_append_right _ List.mem_cons_self,
          hstrip⟩) hold
      · exact hand.2
    · exact fun hkeep => Or.inr ⟨hold, hkeep⟩

/-- The second half of the trip, for strategies that the presets carry. -/
theorem yielded_merged_iff (cmdLabel : Text → Text → Text) (providerId generatedAt : Row)
    (matrix : Option Text) (hss : ss.Nodup) (h : ∀ s ∈ ss, Loads s) :
    Yielded cmdLabel (mergeIntoUserMatrix (bucketSummary providerId generatedAt "tls12" ss) matrix true)
        ss ↔
      ∀ s ∈ ss, (∀ c ∈ s, isLineBreak c = false) ∧ Placed (matrixLines matrix) s := by
  rw [yielded_iff, merged_eq providerId generatedAt matrix hss h]
  have hsplit (hunbroken : ∀ s ∈ ss, ∀ c ∈ s, isLineBreak c = false) (hne : ss ≠ []) :
      splitlines (universalNewlines (joinLines (matrixLines matrix ++
        ss.filter (fun s => s ∉ existingLines (matrixLines matrix))) ++ ['\n'])) =
      matrixLines matrix ++ ss.filter (fun s => s ∉ existingLines (matrixLines matrix)) := by
    refine splitlines_read_joinLines ?_ ?_
    · intro hnil
      obtain ⟨hmatrix, hnew⟩ := List.append_eq_nil_iff.mp hnil
      rw [hmatrix] at hnew
      obtain ⟨s, hs⟩ := List.exists_mem_of_ne_nil ss hne
      exact List.filter_eq_nil_iff.mp hnew s hs (decide_eq_true List.not_mem_nil)
    · intro line hline
      rcases List.mem_append.mp hline with hline | hline
      · exact unbroken_matrixLines matrix line hline
      · exact hunbroken line (List.mem_of_mem_filter hline)
  constructor
  · intro hyield
    have hunbroken : ∀ s ∈ ss, ∀ c ∈ s, isLineBreak c = false := by
      intro s hs c hc
      obtain ⟨before, raw, after, heq, hread, _⟩ := hyield s hs
      rw [readLine_eq_iff (h s hs)] at hread
      rw [← hread] at hc
      exact mem_splitlines (heq ▸ List.mem_append_right _ List.mem_cons_self) ((infix_strip raw).subset hc)
    intro s hs
    rw [hsplit hunbroken (List.ne_nil_of_mem hs)] at hyield
    exact ⟨hunbroken s hs, (yields_iff_placed _ h hs).mp (hyield s hs)⟩
  · intro hgood s hs
    rw [hsplit (fun s hs => (hgood s hs).1) (List.ne_nil_of_mem hs)]
    exact (yields_iff_placed _ h hs).mpr (hgood s hs).2

def acme : Row := ⟨"acme".toList, forall_mem_of_all (by decide)⟩

def undated : Row := ⟨[], fun _ h => absurd h List.not_mem_nil⟩

/-- A strategy of the generators with a companion line. -/
def withMd5 : Text := "fake:blob=fake_default_tls\n--payload=empty --out-range=<s1\nsend:tcp_md5".toList

def fakeTtl : Text := "fake:ttl=3".toList

def splitOne : Text := "multisplit:pos=1".toList

end Blockchecks.PresetTrip
