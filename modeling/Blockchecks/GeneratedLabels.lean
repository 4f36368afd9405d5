import Blockchecks.FamilyRows
import Blockchecks.StandardGenerator

namespace Blockchecks.GeneratedLabels

open Columns FamilyAxes FamilyCodes FamilyExpanders FamilyForms FamilyRegistry FamilyRows FamilyLabels
open OrderedDict RoundRobin StandardGenerator StrategyText TriageRecord

section emission

variable {scanLevel protocol : String} {items : List StrategyItem} {item : StrategyItem}
  {rows : List Row}

/-- The row of an item. -/
def rowOf (item : StrategyItem) : Row := (item.label, item.strategy)

theorem mem_add {label strategy : String} (h : item ∈ add items label strategy protocol) :
    item ∈ items ∨ rowOf item = (label, strategy) := by
  rw [add] at h
  split at h
  next => exact .inl h
  next =>
    rcases List.mem_append.mp h with h | h
    · exact .inl h
    · rw [List.mem_singleton.mp h]
      exact .inr rfl

theorem mem_emitRows (h : item ∈ (emitRows scanLevel protocol items rows).1) :
    item ∈ items ∨ rowOf item ∈ rows := by
  induction rows generalizing items with
  | nil => exact .inl h
  | cons row rows ih =>
      obtain ⟨label, strategy⟩ := row
      rw [emitRows] at h
      have hadd : item ∈ add items label strategy protocol →
          item ∈ items ∨ rowOf item ∈ (label, strategy) :: rows :=
        fun h => (mem_add h).imp_right (fun hrow => List.mem_cons.mpr (.inl hrow))
      split at h
      next => exact hadd h
      next => exact (ih h).elim hadd (fun hrow => .inr (List.mem_cons_of_mem _ hrow))

theorem mem_emitBatches {batches : List Batch} (h : item ∈ emitBatches scanLevel protocol items batches) :
    item ∈ items ∨ rowOf item ∈ rowsOf batches := by
  induction batches generalizing items with
  | nil => exact .inl h
  | cons batch batches ih =>
      have hrows : item ∈ (emitRows scanLevel protocol items batch.rows).1 →
          item ∈ items ∨ rowOf item ∈ rowsOf (batch :: batches) :=
        fun h => (mem_emitRows h).imp_right (fun hrow => List.mem_append_left _ hrow)
      rw [emitBatches] at h
      dsimp only at h
      split at h
      next => exact hrows h
      next => exact (ih h).elim hrows (fun hrow => .inr (List.mem_append_right _ hrow))

theorem emitRows_eq (hlevel : scanLevel ≠ "single") : emitRows scanLevel protocol items rows =
    (rows.foldl (fun items row => add items row.1 row.2 protocol) items, false) := by
  induction rows generalizing items with
  | nil => rfl
  | cons row rows ih =>
      obtain ⟨label, strategy⟩ := row
      rw [emitRows, if_neg hlevel]
      exact ih

theorem emitBatches_eq (hlevel : scanLevel ≠ "single") {batches : List Batch} :
    emitBatches scanLevel protocol items batches =
      (rowsOf batches).foldl (fun items row => add items row.1 row.2 protocol) items := by
  induction batches generalizing items with
  | nil => rfl
  | cons batch batches ih =>
      rw [emitBatches, emitRows_eq hlevel]
      dsimp only
      rw [Bool.and_false, if_neg Bool.false_ne_true, ih, ← List.foldl_append]
      rfl

theorem mem_foldl_rows (h : item ∈ rows.foldl (fun items row => add items row.1 row.2 protocol) items) :
    item ∈ items ∨ rowOf item ∈ rows := by
  have hfold : (emitRows "full" protocol items rows).1 =
      rows.foldl (fun items row => add items row.1 row.2 protocol) items :=
    congrArg Prod.fst (emitRows_eq (by decide))
  exact mem_emitRows (hfold ▸ h)

theorem mem_foldl_add (h : item ∈ items) :
    item ∈ rows.foldl (fun items row => add items row.1 row.2 protocol) items := by
  induction rows generalizing items with
  | nil => exact h
  | cons row rows ih =>
      refine ih ?_
      change item ∈ add items row.1 row.2 protocol
      rw [add]
      split
      next => exact h
      next => exact List.mem_append_left _ h

/-- A row is emitted when its strategy is new. -/
theorem mem_foldl_add_of_new {n : Nat} {row : Row} (h : rows[n]? = some row)
    (hnew : ∀ before ∈ rows.take n, strip before.2.toList ≠ strip row.2.toList) :
    ⟨row.1, row.2, false, protocol⟩ ∈ rows.foldl (fun items row => add items row.1 row.2 protocol) [] := by
  obtain ⟨hn, hrow⟩ := List.getElem?_eq_some_iff.mp h
  have hrows : rows = rows.take n ++ row :: rows.drop (n + 1) := by
    rw [← hrow, ← List.drop_eq_getElem_cons hn, List.take_append_drop]
  rw [hrows, List.foldl_append, List.foldl_cons]
  refine mem_foldl_add ?_
  rw [add, if_neg]
  · exact List.mem_append_right _ (List.mem_singleton.mpr rfl)
  · intro hany
    obtain ⟨item, hitem, hsame⟩ := List.any_eq_true.mp hany
    rcases mem_foldl_rows hitem with hitem | hitem
    · exact List.not_mem_nil hitem
    · exact hnew (rowOf item) hitem (beq_iff_eq.mp hsame)

theorem nodup_foldl_add (h : (items.map StrategyItem.strategy).Nodup) :
    ((rows.foldl (fun items row => add items row.1 row.2 protocol) items).map StrategyItem.strategy).Nodup := by
  induction rows generalizing items with
  | nil => exact h
  | cons row rows ih =>
      refine ih ?_
      change ((add items row.1 row.2 protocol).map StrategyItem.strategy).Nodup
      rw [add]
      split
      next => exact h
      next hnone =>
        rw [List.map_append, List.map_singleton, ← List.concat_eq_append, List.nodup_concat]
        refine ⟨fun hmem => hnone ?_, h⟩
        obtain ⟨item, hitem, hsame⟩ := List.mem_map.mp hmem
        exact List.any_eq_true.mpr ⟨item, hitem, by rw [hsame]; exact beq_self_eq_true _⟩

end emission

section scan

variable (digest : String → String) (triage : Option Profile) (level protocol : String) (known : List String)

/-- Every row of a family is told by its label. -/
theorem expandBatches_told (f : Family) :
    ∀ row ∈ rowsOf (expandBatches digest f (prepared triage level protocol f) level known),
      Told digest (scanExtra level) (scanFool triage level) row := by
  have h := prepared_within triage level protocol f
  have told {row : Row} (k : Kind) (hrow : (form (scanExtra level) (scanFool triage level) k).Has row) :
      Told digest (scanExtra level) (scanFool triage level) row := .inl ⟨k, hrow⟩
  intro row hrow
  cases f with
  | fake => exact preparedFake_rows triage level digest protocol known row hrow
  | rstFake => exact rstFake_rows digest h _ _ row hrow
  | synack => exact told .synack (synack_rows h (prepared_own (by decide) triage level protocol) row hrow)
  | genevaFool => exact told .genevaFool (genevaFool_rows h (prepared_own (by decide) triage level protocol) row hrow)
  | wssize => exact told .wssize (wssize_rows h row hrow)
  | hostfake => exact (hostfake_rows h level known row hrow).elim (told .host) (told .hostfake)
  | multisplit => exact (multisplit_rows h level row hrow).elim (told .multisplit) (told .pad)
  | multidisorder => exact told .multidisorder (multidisorder_rows h row hrow)
  | syndata => exact told .syndata (syndata_rows h (prepared_own (by decide) triage level protocol) row hrow)
  | tcpseg => exact told .tcpseg (tcpseg_rows h (prepared_own (by decide) triage level protocol) row hrow)
  | oob => exact told .oob (oob_rows h row hrow)
  | multiFake => exact told .multiFake (multiFake_rows h row hrow)
  | tripleFake => exact told .tripleFake (tripleFake_rows h row hrow)
  | fakeMultisplit => exact told .fakeMultisplit (fakeMultisplit_rows h row hrow)
  | fakeMultidisorder => exact told .fakeMultidisorder (fakeMultidisorder_rows h row hrow)
  | fakeMultisplitHostfake => exact told .fakeMultisplitHostfake (fakeMultisplitHostfake_rows h row hrow)
  | fakeHostfake => exact told .fakeHostfake (fakeHostfake_rows h row hrow)
  | fakedsplit => exact told .fakedsplit (faked_rows (by decide) (by decide) h "fakedsplit" "std_fds" row hrow)
  | fakeddisorder => exact told .fakeddisorder (faked_rows (by decide) (by decide) h "fakeddisorder" "std_fdd" row hrow)
  | fakeFakedsplit => exact told .fakeFakedsplit (fakeFakedsplit_rows h row hrow)
  | tcpIpfrag => exact (tcpIpfrag_rows h row hrow).elim (told .tcpIpfrag) (told .tcpFakeIpfrag)
  | httpSimple => exact told .httpSimple (httpSimple_rows h row hrow)
  | httpFake => exact told .httpFake (httpFake_rows h row hrow)
  | httpTlsDual => exact told .httpTlsDual (httpTlsDual_rows h row hrow)
  | udpDiscord => exact told .discord (udpDiscord_rows h row hrow)
  | udpMultiblob => exact told .multiblob (udpMultiblob_rows h (prepared_own (by decide) triage level protocol) row hrow)
  | quicFake => exact (quicFake_rows h row hrow).elim (told .quicFake) (told .quicIp6)
  | quicGv => exact told .quicGv (quicGv_rows h row hrow)
  | quicIpfrag => exact (quicIpfrag_rows h row hrow).elim (told .quicIpfrag) (told .quicFakeIpfrag)
  | udpQuic => exact told .udpQuic (udpQuic_rows h row hrow)
  | udpGame => exact told .game (udpGame_rows h row hrow)

theorem expandFamily_told (f : Family) {item : StrategyItem}
    (h : item ∈ expandFamily digest f (prepared triage level protocol f) level known) :
    Told digest (scanExtra level) (scanFool triage level) (rowOf item) :=
  (mem_emitBatches h).elim (fun h => absurd h List.not_mem_nil)
    (expandBatches_told digest triage level protocol known f (rowOf item))

end scan

section generate

variable {digest : String → String} {scan : Scan} {item : StrategyItem} {items : List StrategyItem}

theorem prune_sublist (items : List StrategyItem) (profile : Option TriageProfiles.TriageProfile) (level : String) :
    (pruneItemsByTriage items profile level).Sublist items := by
  cases profile with
  | none => exact List.Sublist.refl items
  | some profile =>
      rw [pruneItemsByTriage]
      split
      next => exact List.nil_sublist items
      next => exact List.filter_sublist

theorem mem_firsts {key : StrategyItem → String} (h : item ∈ firsts key items) : item ∈ items := by
  induction items with
  | nil => exact h
  | cons a items ih =>
      rcases List.mem_cons.mp h with rfl | h
      · exact List.mem_cons_self
      · exact List.mem_cons_of_mem a (ih (List.mem_of_mem_filter h))

theorem mem_roundRobin {groups : Groups} {cap : Int}
    (h : item ∈ (roundRobin (longest groups.values + 1) groups cap).getD []) :
    ∃ lst ∈ groups.values, item ∈ lst := by
  have hresult := roundRobin_eq groups cap 0
  rw [Nat.add_zero] at hresult
  rw [hresult, Option.getD_some] at h
  exact mem_columns.mp (mem_firsts (List.mem_of_mem_take h))

theorem generate_told {g : Generator} {protocol : String} {maxCount : Nat}
    (h : item ∈ g.generate digest scan protocol maxCount) :
    Told digest (scanExtra scan.scanLevel) (scanFool scan.triage scan.scanLevel) (rowOf item) := by
  have hgroup : ∃ lst ∈ (g.expanded digest scan protocol).values, item ∈ lst := by
    rw [Generator.generate] at h
    split at h
    next => exact absurd h List.not_mem_nil
    next =>
      have hmem := (prune_sublist _ _ _).subset h
      split at hmem
      next => exact mem_roundRobin hmem
      next => exact List.mem_flatten.mp (List.mem_of_mem_take hmem)
  obtain ⟨lst, hlst, hitem⟩ := hgroup
  obtain ⟨e, he, rfl⟩ := List.mem_map.mp hlst
  obtain ⟨f, -, rfl⟩ := List.mem_map.mp he
  exact expandFamily_told digest scan.triage scan.scanLevel protocol scan.known f hitem

/-- The label of a line ends in its digest. -/
theorem cmdHumanLabel_eq (line : List Char) :
    ∃ pre, String.ofList (cmdHumanLabel digest line) = cmdLabel digest pre (String.ofList line) :=
  ⟨_, String.ofList_toList⟩

theorem customItems_told {protocol level : String} {maxCount : Nat} {list : Option (List Char)}
    (h : item ∈ customItems digest protocol level maxCount list) :
    ∃ pre, item.label = cmdLabel digest pre item.strategy := by
  rw [customItems] at h
  split at h
  next =>
    have hitem := List.mem_of_mem_take h
    have hline : item ∈ (((((TextFile.universalNewlines (list.getD [])).splitOn '\n').map strip).filter
        (fun line => line ≠ [] ∧ startsWith line "#" = false)).map (fun line =>
        ⟨String.ofList (cmdHumanLabel digest line), String.ofList line, false, protocol⟩) : List StrategyItem) := by
      split at hitem
      next => exact List.mem_of_mem_take hitem
      next => exact hitem
    obtain ⟨line, -, rfl⟩ := List.mem_map.mp hline
    exact cmdHumanLabel_eq line
  next => exact absurd h List.not_mem_nil

theorem iter_label {label : List Char → List Char → List Char} {protocol level : String} {current : Option (List Char)}
    {lines : List (List Char)} {made : UserMatrix.Item}
    (h : made ∈ UserMatrix.iterUserMatrixItems label protocol level current lines) :
    made.label = UserMatrix.cmdHumanLabel label made.strategy := by
  induction lines generalizing current with
  | nil => exact absurd h List.not_mem_nil
  | cons raw lines ih =>
      rw [UserMatrix.iterUserMatrixItems] at h
      split at h
      next => exact ih h
      next => exact ih h
      next strategy _ =>
        split at h
        next =>
          rcases List.mem_cons.mp h with rfl | h
          · rfl
          · split at h
            next => exact absurd h List.not_mem_nil
            next => exact ih h
        next => exact ih h

theorem userItems_told {protocol level : String} {maxCount : Nat} {matrix : List Char}
    (h : item ∈ userItems digest protocol level maxCount matrix) :
    ∃ pre, item.label = cmdLabel digest pre item.strategy := by
  obtain ⟨made, hmade, rfl⟩ := List.mem_map.mp h
  dsimp only
  rw [iter_label (List.mem_of_mem_take hmade)]
  exact cmdHumanLabel_eq made.strategy

/-- An item of one of the sources, at any cap and with any protocol. -/
def Made (digest : String → String) (scan : Scan) (sources : List Source) (item : StrategyItem) : Prop :=
  ∃ source ∈ sources, ∃ maxCount, ∃ made ∈ source.items digest scan maxCount, rowOf item = rowOf made

theorem Made.told {sources : List Source} (h : Made digest scan sources item) :
    Told digest (scanExtra scan.scanLevel) (scanFool scan.triage scan.scanLevel) (rowOf item) := by
  obtain ⟨source, -, maxCount, made, hmade, hrow⟩ := h
  rw [hrow]
  cases source with
  | standard g protocol => exact generate_told hmade
  | custom protocol list => exact .inr (customItems_told hmade)
  | userMatrix protocol matrix => exact .inr (userItems_told hmade)

theorem dedupe_eq (items : List StrategyItem) (maxCount : Nat) :
    dedupe items maxCount = (firsts StrategyItem.strategy items).take maxCount := by
  have hfold (read rest : List StrategyItem) : rest.foldl (fun out item =>
      if item.strategy ∈ out.map StrategyItem.strategy then out else out ++ [item])
        (firsts StrategyItem.strategy read) = firsts StrategyItem.strategy (read ++ rest) := by
    induction rest generalizing read with
    | nil => rw [List.append_nil, List.foldl_nil]
    | cons item rest ih =>
        rw [List.append_cons read item rest, ← ih (read ++ [item]), firsts_concat, List.foldl_cons]
        simp only [mem_map_firsts]
  rw [dedupe]
  exact congrArg (List.take maxCount) (hfold [] items)

/-- A merged matrix has each strategy once, from one of its sources. -/
theorem generated_spec (lane : Lane) (sources : List Source) (maxCount : Nat) (userMatrix : Bool) :
    ((generated digest lane scan sources maxCount userMatrix).map StrategyItem.strategy).Nodup ∧
      ∀ item ∈ generated digest lane scan sources maxCount userMatrix, Made digest scan sources item := by
  have hfinal (items : List StrategyItem) :
      (finalizeGenerated items maxCount scan.triage scan.scanLevel userMatrix).Sublist
        (firsts StrategyItem.strategy items) := by
    have hdedupe : (dedupe items maxCount).Sublist (firsts StrategyItem.strategy items) := by
      rw [dedupe_eq]
      exact List.take_sublist _ _
    rw [finalizeGenerated]
    split
    next => exact hdedupe
    next => exact (prune_sublist _ _ _).trans hdedupe
  constructor
  · exact (nodup_map_firsts StrategyItem.strategy _).sublist ((hfinal _).map StrategyItem.strategy)
  · intro item hitem
    obtain ⟨made, hmade, rfl⟩ := List.mem_map.mp (mem_firsts ((hfinal _).subset hitem))
    obtain ⟨source, hsource, hmade⟩ := List.mem_flatMap.mp hmade
    exact ⟨source, hsource, _, made, hmade, rfl⟩

end generate

end Blockchecks.GeneratedLabels
