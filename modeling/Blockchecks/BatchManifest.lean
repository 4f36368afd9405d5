import Blockchecks.HarvestBatch
import Blockchecks.TextFile

namespace Blockchecks.BatchManifest

open StrategyText LuaConf ExportConf TextFile RunStore HarvestBatch

abbrev Text := List Char

def commaJoined (domains : List String) : Text := [','].intercalate (domains.map String.toList)

def batchLine (c : HarvestCandidate) : Text := commaJoined c.domains ++ " | ".toList ++ c.strategy.toList

def renderBatchTxt (result : HarvestResult) : Text :=
  let lines := result.candidates.map batchLine
  joinLines lines ++ (if lines = [] then [] else ['\n'])

/-- Where a reader ends a line: at a newline, and at some other line breaks or none. -/
structure LineEnds where
  ends : Char → Bool
  newline : ends '\n' = true
  breaks : ∀ c, ends c = true → isLineBreak c = true

def newlineOnly : LineEnds where
  ends := (· == '\n')
  newline := by decide
  breaks := by
    intro c hc
    rw [beq_iff_eq.mp hc]
    decide

/-- The text in front of the first separator, and behind it. -/
def partition (sep : Text) : Text → Option (Text × Text)
  | [] => none
  | c :: text =>
      if sep.isPrefixOf (c :: text) then some ([], (c :: text).drop sep.length)
      else (partition sep text).map (fun p => (c :: p.1, p.2))

def parseLine (line : Text) : Option (List String × String) :=
  (partition " | ".toList line).map (fun p =>
    ((p.1.splitOn ',').map String.ofList, String.ofList p.2))

/-- The records of a batch text; a line without a separator has none. -/
def parseBatch (reader : LineEnds) (text : Text) : List (List String × String) :=
  (text.splitOnP reader.ends).filterMap parseLine

/-- A candidate whose line says what it should. -/
structure OneLine (reader : LineEnds) (c : HarvestCandidate) : Prop where
  strategy : ∀ d ∈ c.strategy.toList, reader.ends d = false
  domains : ∀ domain ∈ c.domains, ∀ d ∈ domain.toList, reader.ends d = false
  commas : ∀ domain ∈ c.domains, ',' ∉ domain.toList
  separator : contains (commaJoined c.domains ++ " |".toList) " | " = false

variable {reader : LineEnds} {text left right : Text} {c : HarvestCandidate}

theorem partition_eq_some (h : partition " | ".toList text = some (left, right)) :
    text = left ++ " | ".toList ++ right := by
  induction text generalizing left with
  | nil => cases h
  | cons d text ih =>
      rw [partition] at h
      split at h
      next hpre =>
        obtain ⟨rest, hrest⟩ := List.isPrefixOf_iff_prefix.mp hpre
        obtain ⟨rfl, rfl⟩ := Prod.mk.inj (Option.some.inj h)
        rw [List.nil_append, ← hrest, List.drop_left]
      · obtain ⟨⟨l, r⟩, hp, heq⟩ := Option.map_eq_some_iff.mp h
        obtain ⟨rfl, rfl⟩ := Prod.mk.inj heq
        rw [ih hp, List.cons_append, List.cons_append]

/-- The first separator of a line is the right one unless one stands, or begins,
in front of it. -/
theorem partition_append (left right : Text) :
    partition " | ".toList (left ++ " | ".toList ++ right) = some (left, right) ↔
      contains (left ++ " |".toList) " | " = false := by
  induction left with
  | nil =>
      refine iff_of_true ?_ (by decide)
      rw [List.nil_append]
      exact if_pos (List.isPrefixOf_iff_prefix.mpr (List.prefix_append _ _))
  | cons d left ih =>
      -- the first three characters decide whether a separator begins here
      have hhead : " | ".toList.isPrefixOf (d :: (left ++ " | ".toList ++ right)) =
          " | ".toList.isPrefixOf (d :: (left ++ " |".toList)) := by
        rw [Bool.eq_iff_iff, List.isPrefixOf_iff_prefix, List.isPrefixOf_iff_prefix]
        have hpre : d :: (left ++ " |".toList) <+: d :: (left ++ " | ".toList ++ right) :=
          ⟨' ' :: right, by simp⟩
        constructor
        · intro h
          refine List.prefix_of_prefix_length_le h hpre ?_
          rw [List.length_cons, List.length_append]
          change 3 ≤ left.length + 2 + 1
          omega
        · exact fun h => h.trans hpre
      rw [List.cons_append, List.cons_append, partition, hhead, List.cons_append, contains, hasInfix]
      split
      next hyes =>
        rw [hyes, Bool.true_or]
        exact iff_of_false (fun h => List.cons_ne_nil _ _ (Prod.mk.inj (Option.some.inj h)).1.symm)
          (fun h => absurd h Bool.noConfusion)
      next hno =>
        rw [Bool.eq_false_iff.mpr hno, Bool.false_or, ← contains, ← ih, Option.map_eq_some_iff]
        constructor
        · rintro ⟨⟨l, r⟩, hp, heq⟩
          obtain ⟨hl, hr⟩ := Prod.mk.inj heq
          exact hp.trans (congrArg some (Prod.ext (List.cons.inj hl).2 hr))
        · exact fun h => ⟨(left, right), h, rfl⟩

theorem commaJoined_split (domains : List String) (hne : domains ≠ []) :
    ((commaJoined domains).splitOn ',').map String.ofList = domains ↔ ∀ d ∈ domains, ',' ∉ d.toList := by
  constructor
  · intro h d hd
    rw [← h] at hd
    obtain ⟨part, hpart, rfl⟩ := List.mem_map.mp hd
    rw [String.toList_ofList]
    intro hcomma
    have hno : (',' == ',') = false := mem_splitOnP_not (p := (· == ',')) hpart hcomma
    cases hno
  · intro h
    have hparts : ∀ l ∈ domains.map String.toList, ',' ∉ l := by
      intro l hl
      obtain ⟨d, hd, rfl⟩ := List.mem_map.mp hl
      exact h d hd
    rw [commaJoined, List.splitOn_intercalate ',' hparts (fun hnil => hne (List.map_eq_nil_iff.mp hnil)), List.map_map]
    exact (List.map_congr_left (fun d _ => String.ofList_toList)).trans (List.map_id _)

theorem parseLine_batchLine (hne : c.domains ≠ []) :
    parseLine (batchLine c) = some (c.domains, c.strategy) ↔
      (∀ d ∈ c.domains, ',' ∉ d.toList) ∧ contains (commaJoined c.domains ++ " |".toList) " | " = false := by
  rw [← commaJoined_split c.domains hne, ← partition_append _ c.strategy.toList, parseLine,
    Option.map_eq_some_iff, batchLine]
  constructor
  · rintro ⟨⟨left, right⟩, hp, heq⟩
    obtain ⟨hdomains, hstrategy⟩ := Prod.mk.inj heq
    have hright : right = c.strategy.toList := by rw [← hstrategy, String.toList_ofList]
    have hleft := partition_eq_some hp
    rw [hright] at hleft hp
    rw [List.append_assoc, List.append_assoc] at hleft
    have hsame : commaJoined c.domains = left := List.append_cancel_right hleft
    rw [hsame] at hp ⊢
    exact ⟨hdomains, hp⟩
  · rintro ⟨hdomains, hp⟩
    exact ⟨_, hp, by rw [hdomains, String.ofList_toList]⟩

theorem ends_parseLine {line : Text} {record : List String × String}
    (h : parseLine line = some record) (hline : ∀ d ∈ line, reader.ends d = false) :
    (∀ d ∈ record.2.toList, reader.ends d = false) ∧
      ∀ domain ∈ record.1, ∀ d ∈ domain.toList, reader.ends d = false := by
  obtain ⟨⟨left, right⟩, hp, rfl⟩ := Option.map_eq_some_iff.mp h
  rw [partition_eq_some hp] at hline
  refine ⟨?_, ?_⟩
  · intro d hd
    rw [String.toList_ofList] at hd
    exact hline d (List.mem_append_right _ hd)
  · intro domain hdomain d hd
    obtain ⟨part, hpart, rfl⟩ := List.mem_map.mp hdomain
    rw [String.toList_ofList] at hd
    have hleft : d ∈ (left.splitOn ',').flatten := List.mem_flatten.mpr ⟨part, hpart, hd⟩
    rw [List.splitOn_eq_splitOnP, flatten_splitOnP] at hleft
    exact hline d (List.mem_append_left _ (List.mem_append_left _ (List.mem_of_mem_filter hleft)))

theorem ends_batchLine (hstrategy : ∀ d ∈ c.strategy.toList, reader.ends d = false)
    (hdomains : ∀ domain ∈ c.domains, ∀ d ∈ domain.toList, reader.ends d = false) :
    ∀ d ∈ batchLine c, reader.ends d = false := by
  have hplain {d : Char} (hd : d ∈ [',', ' ', '|']) : reader.ends d = false := by
    refine Bool.eq_false_iff.mpr (fun hends => ?_)
    have hbreak := reader.breaks d hends
    simp only [List.mem_cons, List.not_mem_nil, or_false] at hd
    rcases hd with rfl | rfl | rfl
    · exact absurd hbreak (by decide)
    · exact absurd hbreak (by decide)
    · exact absurd hbreak (by decide)
  have hjoined : ∀ d ∈ commaJoined c.domains, reader.ends d = false := by
    intro d hd
    have hmem : d = ',' ∨ ∃ part ∈ c.domains.map String.toList, d ∈ part := mem_intercalate hd
    rcases hmem with rfl | ⟨part, hpart, hd⟩
    · exact hplain (by decide)
    · obtain ⟨domain, hdomain, rfl⟩ := List.mem_map.mp hpart
      exact hdomains domain hdomain d hd
  intro d hd
  rcases List.mem_append.mp hd with hd | hd
  · rcases List.mem_append.mp hd with hd | hd
    · exact hjoined d hd
    · have hsep : " | ".toList ⊆ [',', ' ', '|'] := by decide
      exact hplain (hsep hd)
  · exact hstrategy d hd

/-- Reading the text back gives the lines that were written, if nothing in them
ends a line. -/
theorem parseBatch_render {result : HarvestResult}
    (h : ∀ c ∈ result.candidates, ∀ d ∈ batchLine c, reader.ends d = false) :
    parseBatch reader (renderBatchTxt result) =
      result.candidates.filterMap (fun c => parseLine (batchLine c)) := by
  rw [parseBatch, renderBatchTxt]
  by_cases hnil : result.candidates.map batchLine = []
  · rw [if_pos hnil, hnil, List.map_eq_nil_iff.mp hnil]
    rfl
  · have hlines : ∀ line ∈ result.candidates.map batchLine, ∀ d ∈ line, reader.ends d = false := by
      intro line hline
      obtain ⟨c, hc, rfl⟩ := List.mem_map.mp hline
      exact h c hc
    rw [if_neg hnil, splitOnP_joinLines reader.newline hnil hlines, List.filterMap_append,
      List.filterMap_map]
    exact List.append_nil _

theorem filterMap_eq_map_iff {α γ : Type} {f : α → Option γ} {g : α → γ} (hf : ∀ x, (f x).isSome = true)
    (xs : List α) : xs.filterMap f = xs.map g ↔ ∀ x ∈ xs, f x = some (g x) := by
  induction xs with
  | nil => exact iff_of_true rfl (fun _ h => absurd h List.not_mem_nil)
  | cons x xs ih =>
      obtain ⟨y, hy⟩ := Option.isSome_iff_exists.mp (hf x)
      rw [List.filterMap_cons_some hy, List.map_cons, List.cons.injEq, ih, List.forall_mem_cons, hy,
        Option.some.injEq]

theorem parseLine_isSome (c : HarvestCandidate) : (parseLine (batchLine c)).isSome = true := by
  have hpartition (left right : Text) :
      (partition " | ".toList (left ++ " | ".toList ++ right)).isSome = true := by
    induction left with
    | nil =>
        rw [List.nil_append]
        have hpre : " | ".toList.isPrefixOf (" | ".toList ++ right) = true :=
          List.isPrefixOf_iff_prefix.mpr (List.prefix_append _ _)
        exact congrArg Option.isSome (if_pos hpre)
    | cons d left ih =>
        rw [List.cons_append, List.cons_append, partition]
        split
        · rfl
        · rw [Option.isSome_map]
          exact ih
  rw [parseLine, Option.isSome_map]
  exact hpartition _ _

/-- A batch text gives its candidates back if and only if each of them fits one line. -/
theorem records_back_iff {result : HarvestResult} (hne : ∀ c ∈ result.candidates, c.domains ≠ []) :
    parseBatch reader (renderBatchTxt result) =
        result.candidates.map (fun c => (c.domains, c.strategy)) ↔
      ∀ c ∈ result.candidates, OneLine reader c := by
  constructor
  · intro h
    have hends : ∀ c ∈ result.candidates, (∀ d ∈ c.strategy.toList, reader.ends d = false) ∧
        ∀ domain ∈ c.domains, ∀ d ∈ domain.toList, reader.ends d = false := by
      intro c hc
      have hrecord : (c.domains, c.strategy) ∈ parseBatch reader (renderBatchTxt result) := by
        rw [h]
        exact List.mem_map_of_mem hc
      obtain ⟨line, hline, hparse⟩ := List.mem_filterMap.mp hrecord
      exact ends_parseLine hparse (fun d hd => mem_splitOnP_not hline hd)
    rw [parseBatch_render (fun c hc => ends_batchLine (hends c hc).1 (hends c hc).2),
      filterMap_eq_map_iff parseLine_isSome] at h
    intro c hc
    obtain ⟨hcommas, hseparator⟩ := (parseLine_batchLine (hne c hc)).mp (h c hc)
    exact ⟨(hends c hc).1, (hends c hc).2, hcommas, hseparator⟩
  · intro h
    rw [parseBatch_render (fun c hc => ends_batchLine (h c hc).strategy (h c hc).domains),
      filterMap_eq_map_iff parseLine_isSome]
    exact fun c hc => (parseLine_batchLine (hne c hc)).mpr ⟨(h c hc).commas, (h c hc).separator⟩

theorem candidate_domains {confText : Text → Option Text} {db : Db} {proto : String} {top minDomains : Nat}
    {statuses : List Status} {quarantined : Option (List String)}
    (hc : c ∈ (collectHarvestCandidates confText db proto top minDomains statuses quarantined).candidates) :
    c.domains ≠ [] := by
  have hfound := (List.mergeSort_perm _ _).mem_iff.mp (List.mem_of_mem_take hc)
  obtain ⟨s, hs, hcandidate⟩ := List.mem_filterMap.mp hfound
  obtain ⟨q, hq, rfl⟩ := List.mem_map.mp (List.mem_dedup.mp (List.mem_filter.mp hs).1)
  obtain ⟨strategy, _, rfl⟩ := Option.map_eq_some_iff.mp hcandidate
  refine List.ne_nil_of_mem ((List.perm_insertionSort _ _).mem_iff.mpr (List.mem_map_of_mem
    (List.mem_filter.mpr ⟨hq, decide_eq_true rfl⟩)))

def md5Row (domain : String) : TcpEntry :=
  ⟨"md5", "tcp", "fake:blob=fake_default_tls\n--payload=empty --out-range=<s1\nsend:tcp_md5",
    { domain := domain, status := .pass, bridgeApplied := some true }⟩

/-- A strategy with a companion line that works on two domains. -/
def md5Works : Db := (emptyDb.write 1 (md5Row "a.com")).write 1 (md5Row "b.com")

end Blockchecks.BatchManifest
