import Blockchecks.FamilyMonotone

namespace Blockchecks.FamilyResume

open FamilyGates FamilyMonotone ResumeModes RunStore StrategyText

variable {g : Gates} {t t' : Turn} {a b r : BlockRun} {runs : List BlockRun}
  {blocks : List (List StrategyItem)} {block : List StrategyItem} {item : StrategyItem}

section turns

/-- The gates of the need flags, without the resume check. -/
def gates (g : Gates) (t : Turn) (item : StrategyItem) : Bool :=
  skipFamily t.needs.toFamilyNeedTracker (classifyStrategyFamily item) g.scanLevel ||
    skipStrategy t.needs.toFamilyNeedTracker item g.scanLevel

def executes (g : Gates) (t : Turn) (item : StrategyItem) : Bool := !gates g t item && !g.resumed t item

theorem outcomes_fst (g : Gates) (clock : Nat) (items : List StrategyItem) :
    (outcomes g clock items).map Prod.fst = items := by
  induction items generalizing clock with
  | nil => rfl
  | cons item items ih => rw [outcomes_cons, List.map_cons, ih]

theorem probeItems_eq (hlevel : g.scanLevel ≠ "single") (stop : Option Nat) (clock : Nat)
    (items : List StrategyItem) : g.probeItems stop clock items = beforeStop stop (outcomes g clock items) := by
  induction items generalizing stop clock with
  | nil =>
      cases stop with
      | none => rfl
      | some n => exact List.take_nil.symm
  | cons item items ih =>
      rw [Gates.probeItems, outcomes_cons]
      split
      next hstop => rw [hstop]; rfl
      next hstop =>
        dsimp only
        rw [beforeStop_cons hstop, if_neg (fun h => hlevel h.1), ih]

/-- A turn probes what its gates let through, as far as the stop event allows. -/
theorem runBlock_probed (hlevel : g.scanLevel ≠ "single") (t : Turn) (family : String)
    (block : List StrategyItem) :
    (g.runBlock t family block).probed =
      if skipFamily t.needs.toFamilyNeedTracker family g.scanLevel then []
      else beforeStop t.stop (outcomes g t.clock (block.filter (g.selects t))) := by
  rw [Gates.runBlock]
  split
  · rfl
  · dsimp only
    split
    next hselected =>
      rw [hselected]
      cases t.stop with
      | none => rfl
      | some n => exact List.take_nil.symm
    next => exact probeItems_eq hlevel _ _ _

theorem mem_probed_iff (hlevel : g.scanLevel ≠ "single") (hstop : t.stop = none) {family : String}
    (huniform : ∀ item ∈ block, classifyStrategyFamily item = family) :
    item ∈ ((g.runBlock t family block).probed).map Prod.fst ↔ item ∈ block ∧ executes g t item = true := by
  rw [runBlock_probed hlevel, hstop, executes, gates]
  split
  next hskip =>
    refine ⟨fun h => absurd h List.not_mem_nil, fun ⟨hitem, h⟩ => ?_⟩
    rw [huniform item hitem, hskip] at h
    cases h
  next hskip =>
    rw [beforeStop, outcomes_fst, List.mem_filter]
    refine and_congr_right (fun hitem => ?_)
    rw [huniform item hitem, Bool.eq_false_iff.mpr hskip, Bool.false_or, Gates.selects, Bool.and_comm]

end turns

section stopped

theorem runBlocks_stopped (g : Gates) (hstop : t.stop = some 0) (blocks : List (List StrategyItem)) :
    g.runBlocks t blocks = [] := by
  induction blocks with
  | nil => rfl
  | cons block blocks ih =>
      cases block with
      | nil => exact ih
      | cons item items => rw [Gates.runBlocks, if_pos hstop]

theorem executed_cons (r : BlockRun) (runs : List BlockRun) :
    executed (r :: runs) = r.probed.map Prod.fst ++ executed runs := by
  rw [executed, results, List.flatMap_cons, List.map_append]
  rfl

theorem runBlocks_go (hlevel : g.scanLevel ≠ "single") (hstop : t.stop ≠ some 0) (item : StrategyItem)
    (items : List StrategyItem) (blocks : List (List StrategyItem)) :
    let r := g.runBlock { t with stop := t.stop.map (· - 1) } (classifyStrategyFamily item) (item :: items)
    g.runBlocks t ((item :: items) :: blocks) = r :: g.runBlocks (g.next r) blocks := by
  rw [Gates.runBlocks, if_neg hstop]
  dsimp only
  rw [if_neg (fun h => hlevel h.1)]

/-- Either the stop event does not come within the turn, and the turn is the
one of a call that is not stopped, or nothing comes after it. -/
theorem runBlock_cut (hlevel : g.scanLevel ≠ "single") (t : Turn) (family : String) (block : List StrategyItem) :
    let whole := g.runBlock { t with stop := none } family block
    let cut := g.runBlock t family block
    (cut.probed = whole.probed ∧ cut.hadPass = whole.hadPass) ∨
      (cut.probed <+: whole.probed ∧ (g.next cut).stop = some 0) := by
  intro whole cut
  have hwhole : whole.probed = _ := runBlock_probed hlevel { t with stop := none } family block
  have hcut : cut.probed = _ := runBlock_probed hlevel t family block
  by_cases hskip : skipFamily t.needs.toFamilyNeedTracker family g.scanLevel = true
  · rw [if_pos hskip] at hwhole hcut
    refine Or.inl ⟨hcut.trans hwhole.symm, ?_⟩
    have hfalse (t' : Turn) (hneeds : t'.needs = t.needs) : (g.runBlock t' family block).hadPass = false := by
      rw [Gates.runBlock, hneeds, if_pos hskip]
    exact (hfalse t rfl).trans (hfalse { t with stop := none } rfl).symm
  · rw [if_neg hskip] at hwhole hcut
    have hpass : cut.hadPass = passes g t block := hadPass_eq_passes (Bool.eq_false_iff.mpr hskip) block
    have hpassWhole : whole.hadPass = passes g { t with stop := none } block :=
      hadPass_eq_passes (t := { t with stop := none }) (Bool.eq_false_iff.mpr hskip) block
    let os := outcomes g t.clock (block.filter (g.selects t))
    by_cases hreach : beforeStop t.stop os = os
    · refine Or.inl ⟨hcut.trans (hreach.trans hwhole.symm), ?_⟩
      rw [hpass, hpassWhole, passes, passes]
      exact congrArg (fun l : List (StrategyItem × Probe) => ite _ _ (l.any succeeded)) hreach
    · refine Or.inr ?_
      cases ht : t.stop with
      | none =>
          rw [ht] at hreach
          exact absurd rfl hreach
      | some n =>
          rw [ht] at hreach hcut
          have hlt : n < os.length := by
            by_contra hle
            exact hreach (List.take_of_length_le (Nat.le_of_not_lt hle))
          have hlength : cut.probed.length = n := by
            rw [hcut]
            exact List.length_take_of_le (Nat.le_of_lt hlt)
          refine ⟨?_, ?_⟩
          · rw [hcut, hwhole]
            exact List.take_prefix n os
          · have hturn : cut.turn.stop = some n := by rw [(runBlock_keeps ..).1, ht]
            rw [Gates.next, hturn, hlength, Option.map_some, Nat.sub_self]

theorem next_whole {family : String} (h : let whole := g.runBlock { t with stop := none } family block
      (g.runBlock t family block).probed = whole.probed ∧ (g.runBlock t family block).hadPass = whole.hadPass) :
    { g.next (g.runBlock t family block) with stop := none } =
      g.next (g.runBlock { t with stop := none } family block) := by
  obtain ⟨hturn, hfamily, _⟩ := runBlock_keeps g t family block
  obtain ⟨hturnWhole, hfamilyWhole, _⟩ := runBlock_keeps g { t with stop := none } family block
  rw [Gates.next, Gates.next, BlockRun.after, BlockRun.after, h.1, h.2, hturn, hfamily, hturnWhole, hfamilyWhole]
  rfl

/-- What a stopped call executes, an uninterrupted one begins with. -/
theorem stopped_prefix (hlevel : g.scanLevel ≠ "single") (t : Turn) (hresume : t.resume = none)
    (blocks : List (List StrategyItem)) :
    executed (g.runBlocks t blocks) <+: executed (g.runBlocks { t with stop := none } blocks) := by
  induction blocks generalizing t with
  | nil => exact List.prefix_rfl
  | cons block blocks ih =>
      cases block with
      | nil => exact ih t hresume
      | cons item items =>
          by_cases hstop : t.stop = some 0
          · rw [runBlocks_stopped g hstop]
            exact List.nil_prefix
          · rw [runBlocks_go hlevel hstop, runBlocks_go hlevel (by simp), executed_cons, executed_cons]
            rcases runBlock_cut hlevel { t with stop := t.stop.map (· - 1) } (classifyStrategyFamily item)
              (item :: items) with ⟨hprobed, hpass⟩ | ⟨hstarts, hzero⟩
            · have hnext := next_whole ⟨hprobed, hpass⟩
              have hrest := ih (g.next (g.runBlock { t with stop := t.stop.map (· - 1) }
                (classifyStrategyFamily item) (item :: items))) (by
                  rw [Gates.next, (runBlock_keeps ..).1]
                  exact congrArg (Option.map _) hresume)
              rw [hnext] at hrest
              rw [hprobed]
              exact (List.prefix_append_right_inj _).mpr hrest
            · rw [runBlocks_stopped g hzero, executed, results, List.flatMap_nil, List.map_nil, List.append_nil]
              exact (hstarts.map Prod.fst).trans (List.prefix_append _ _)

end stopped

section equivalence

/-- What the turns of a call keep, each begins with. -/
theorem runBlocks_turn {P : Turn → Prop} (hcheck : ∀ t, P t → P { t with stop := t.stop.map (· - 1) })
    (hnext : ∀ r : BlockRun, P r.turn → P (g.next r)) (h : P t) :
    ∀ r ∈ g.runBlocks t blocks, P r.turn := by
  induction blocks generalizing t with
  | nil => exact fun r hr => absurd hr List.not_mem_nil
  | cons block blocks ih =>
      cases block with
      | nil => exact ih h
      | cons item items =>
          have hfirst : P (g.runBlock { t with stop := t.stop.map (· - 1) } (classifyStrategyFamily item)
              (item :: items)).turn := by
            rw [(runBlock_keeps ..).1]
            exact hcheck t h
          intro r hr
          rw [Gates.runBlocks] at hr
          split at hr
          · cases hr
          · rcases List.mem_cons.mp hr with rfl | hrest
            · exact hfirst
            · split at hrest
              · cases hrest
              · exact ih (hnext _ hfirst) r hrest

theorem turn_stop_none (hstop : t.stop = none) : ∀ r ∈ g.runBlocks t blocks, r.turn.stop = none :=
  runBlocks_turn (P := fun t => t.stop = none) (fun _ h => congrArg (Option.map _) h) (fun _ h => congrArg (Option.map _) h) hstop

theorem mem_executed_iff (hlevel : g.scanLevel ≠ "single") (hstop : t.stop = none)
    (huniform : ∀ block ∈ blocks, Uniform block) :
    item ∈ executed (g.runBlocks t blocks) ↔
      ∃ r ∈ g.runBlocks t blocks, item ∈ r.items ∧ executes g r.turn item = true := by
  rw [executed, results, List.map_flatMap, List.mem_flatMap]
  refine exists_congr (fun r => and_congr_right (fun hr => ?_))
  obtain ⟨hrun, hitems, hhead⟩ := mem_runBlocks hr
  have hfamily := huniform r.items hitems r.family hhead
  have hiff : item ∈ (g.runBlock r.turn r.family r.items).probed.map Prod.fst ↔ _ :=
    mem_probed_iff hlevel (turn_stop_none hstop r hr) hfamily
  rwa [← hrun] at hiff

/-- A call that is neither stopped nor single reaches every block. -/
theorem runBlocks_items (hlevel : g.scanLevel ≠ "single") (hstop : t.stop = none) :
    (g.runBlocks t blocks).map BlockRun.items = blocks.filter (fun block => block ≠ []) := by
  induction blocks generalizing t with
  | nil => rfl
  | cons block blocks ih =>
      cases block with
      | nil => exact ih hstop
      | cons item items =>
          have hgo := runBlocks_go hlevel (fun h => Option.some_ne_none 0 (h.symm.trans hstop)) item items blocks
          rw [hgo, List.map_cons, (runBlock_keeps ..).2.2, ih ?_]
          · rfl
          · rw [Gates.next, (runBlock_keeps ..).1]
            exact congrArg (Option.map _) (congrArg (Option.map _) hstop)

def uninterrupted (g : Gates) (items : List StrategyItem) : List BlockRun :=
  g.runTcpWithFamilyGates none none items

def stopped (g : Gates) (n : Nat) (items : List StrategyItem) : List BlockRun :=
  g.runTcpWithFamilyGates none (some n) items

/-- The store after the stopped call. -/
def persisted (g : Gates) (db : Db) (n : Nat) (items : List StrategyItem) : Db :=
  g.store db (results (stopped g n items))

def resumedCall (g : Gates) (db : Db) (n : Nat) (items : List StrategyItem) : List BlockRun :=
  let db := persisted g db n items
  g.runTcpWithFamilyGates (some (db, db.getWorkingTcp g.domain)) none items

/-- The stopped call and the resumed one execute together what one call does. -/
def SameExecuted (g : Gates) (db : Db) (n : Nat) (items : List StrategyItem) : Prop :=
  ∀ item, (item ∈ executed (stopped g n items) ∨ item ∈ executed (resumedCall g db n items)) ↔
    item ∈ executed (uninterrupted g items)

/-- The flags and rows that the one turn begins with let through what those of
the other do, but for the items already executed. -/
def SameGating (g : Gates) (done : List StrategyItem) (a b : BlockRun) : Prop :=
  ∀ item ∈ a.items, item ∉ done → executes g a.turn item = executes g b.turn item

def Regated (g : Gates) (db : Db) (n : Nat) (items : List StrategyItem) : Prop :=
  List.Forall₂ (SameGating g (executed (stopped g n items))) (uninterrupted g items)
    (resumedCall g db n items)

def Covers (g : Gates) (runs : List BlockRun) (item : StrategyItem) : Prop :=
  ∃ r ∈ runs, item ∈ r.items ∧ executes g r.turn item = true

theorem covers_head (hitem : item ∈ a.items) (hrest : ∀ r ∈ runs, item ∉ r.items) :
    Covers g (a :: runs) item ↔ executes g a.turn item = true := by
  constructor
  · rintro ⟨r, hr, hmem, hexec⟩
    rcases List.mem_cons.mp hr with rfl | hr
    · exact hexec
    · exact absurd hmem (hrest r hr)
  · exact fun h => ⟨a, List.mem_cons_self, hitem, h⟩

theorem covers_tail (hitem : item ∉ a.items) : Covers g (a :: runs) item ↔ Covers g runs item := by
  constructor
  · rintro ⟨r, hr, hmem, hexec⟩
    rcases List.mem_cons.mp hr with rfl | hr
    · exact absurd hmem hitem
    · exact ⟨r, hr, hmem, hexec⟩
  · rintro ⟨r, hr, h⟩
    exact ⟨r, List.mem_cons_of_mem a hr, h⟩

theorem mem_items_iff {whole resumed : List BlockRun}
    (hitems : whole.map BlockRun.items = resumed.map BlockRun.items) :
    (∃ r ∈ resumed, item ∈ r.items) ↔ item ∈ whole.flatMap BlockRun.items := by
  rw [List.flatMap, hitems, ← List.flatMap, List.mem_flatMap]

theorem sameGating_of_covers {done : List StrategyItem} {whole resumed : List BlockRun}
    (hitems : whole.map BlockRun.items = resumed.map BlockRun.items)
    (hnodup : (whole.flatMap BlockRun.items).Nodup)
    (h : ∀ item ∈ whole.flatMap BlockRun.items, item ∉ done → (Covers g whole item ↔ Covers g resumed item)) :
    List.Forall₂ (SameGating g done) whole resumed := by
  induction whole generalizing resumed with
  | nil =>
      rw [List.map_eq_nil_iff.mp hitems.symm]
      exact List.Forall₂.nil
  | cons a whole ih =>
      cases resumed with
      | nil => cases hitems
      | cons b resumed =>
          obtain ⟨hhead, htail⟩ := List.cons.inj hitems
          rw [List.flatMap_cons] at hnodup h
          obtain ⟨_, hrestNodup, hdisjoint⟩ := List.nodup_append.mp hnodup
          refine List.Forall₂.cons ?_ (ih htail hrestNodup ?_)
          · intro item hitem hdone
            have hrest : item ∉ whole.flatMap BlockRun.items := fun hmem => hdisjoint item hitem item hmem rfl
            have hcovers := h item (List.mem_append_left _ hitem) hdone
            rw [covers_head hitem (fun r hr hmem => hrest (List.mem_flatMap.mpr ⟨r, hr, hmem⟩)),
              covers_head (hhead ▸ hitem) (fun r hr hmem => hrest ((mem_items_iff htail).mp ⟨r, hr, hmem⟩))]
              at hcovers
            exact Bool.eq_iff_iff.mpr hcovers
          · intro item hitem hdone
            have hnot : item ∉ a.items := fun hmem => hdisjoint item hmem item hitem rfl
            have hcovers := h item (List.mem_append_right _ hitem) hdone
            rwa [covers_tail hnot, covers_tail (hhead ▸ hnot)] at hcovers

theorem covers_of_sameGating {done : List StrategyItem} {whole resumed : List BlockRun}
    (hitems : whole.map BlockRun.items = resumed.map BlockRun.items)
    (h : List.Forall₂ (SameGating g done) whole resumed) (hdone : item ∉ done) :
    Covers g whole item ↔ Covers g resumed item := by
  induction h with
  | nil => exact Iff.rfl
  | @cons a b whole resumed hgating hrest ih =>
      obtain ⟨hhead, htail⟩ := List.cons.inj hitems
      have hfirst : (item ∈ a.items ∧ executes g a.turn item = true) ↔
          item ∈ b.items ∧ executes g b.turn item = true := by
        rw [← hhead]
        exact and_congr_right (fun hitem => by rw [hgating item hitem hdone])
      simp only [Covers, List.exists_mem_cons_iff] at ih ⊢
      rw [hfirst, ih htail]

theorem items_nodup (hlevel : g.scanLevel ≠ "single") {items : List StrategyItem} (hnodup : items.Nodup) :
    ((uninterrupted g items).flatMap BlockRun.items).Nodup := by
  have hmap : (uninterrupted g items).map BlockRun.items = _ := runBlocks_items hlevel rfl
  have hblocks : (familyBlocks items).filter (fun block => block ≠ []) = familyBlocks items := by
    refine List.filter_eq_self.mpr (fun block hblock => decide_eq_true ?_)
    exact List.ne_nil_of_mem_splitBy hblock
  rw [List.flatMap, hmap, hblocks, familyBlocks, List.flatten_splitBy]
  exact (List.perm_insertionSort _ items).nodup_iff.mpr hnodup

instance (g : Gates) (done : List StrategyItem) (a b : BlockRun) : Decidable (SameGating g done a b) :=
  inferInstanceAs (Decidable (∀ item ∈ a.items, item ∉ done → _))

instance (g : Gates) (db : Db) (n : Nat) (items : List StrategyItem) : Decidable (Regated g db n items) :=
  inferInstanceAs (Decidable (List.Forall₂ _ _ _))

def splitItems : List StrategyItem :=
  [{ label := "std_split_1", strategy := "multisplit:pos=1" },
    { label := "std_mdis_1", strategy := "multidisorder:pos=1" }]

end equivalence

end Blockchecks.FamilyResume
