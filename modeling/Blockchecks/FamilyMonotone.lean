import Blockchecks.FamilyGates

namespace Blockchecks.FamilyMonotone

open FamilyGates ResumeModes RunStore StrategyText

section families

/-- The families in the order of their blocks: neighbours differ, ranks rise. -/
theorem familyRank_lt {f g : String} (hne : f ≠ g) (hle : familyRank f ≤ familyRank g)
    (hf : familyRank f ≠ 999) : familyRank f < familyRank g := by
  refine lt_of_le_of_ne hle (fun heq => hne ?_)
  have hlength : tcpFamilies.length < 999 := by decide
  have hfmem : f ∈ tcpFamilies := by
    by_contra hfmem
    exact hf (if_neg hfmem)
  have hgmem : g ∈ tcpFamilies := by
    by_contra hgmem
    rw [familyRank, familyRank, if_pos hfmem, if_neg hgmem] at heq
    have hlt := List.idxOf_lt_length_of_mem hfmem
    omega
  rw [familyRank, familyRank, if_pos hfmem, if_pos hgmem] at heq
  exact (List.idxOf_inj hfmem).mp heq

/-- Only families outside the table come up more than once. -/
theorem ranked_once {families : List String} (hne : families.IsChain (· ≠ ·))
    (hrank : families.Pairwise (fun f g => familyRank f ≤ familyRank g)) :
    families.Pairwise (fun f g => f = g → familyRank f = 999) := by
  induction families with
  | nil => exact List.Pairwise.nil
  | cons f families ih =>
      obtain ⟨hf, hrest⟩ := List.pairwise_cons.mp hrank
      refine List.pairwise_cons.mpr ⟨?_, ih hne.tail hrest⟩
      cases families with
      | nil => exact fun g hg => absurd hg List.not_mem_nil
      | cons next families =>
          intro g hg heq
          by_contra hranked
          have hnext := familyRank_lt (List.isChain_cons_cons.mp hne).1 (hf next List.mem_cons_self) hranked
          have hle : familyRank next ≤ familyRank g := by
            rcases List.mem_cons.mp hg with rfl | hg
            · exact le_refl _
            · exact (List.pairwise_cons.mp hrest).1 g hg
          rw [← heq] at hle
          omega

def headFamily (block : List StrategyItem) : Option String := block.head?.map classifyStrategyFamily

/-- All items of a block are of the family of the first. -/
def Uniform (block : List StrategyItem) : Prop :=
  ∀ f, headFamily block = some f → ∀ item ∈ block, classifyStrategyFamily item = f

theorem uniform_of_isChain {block : List StrategyItem}
    (h : block.IsChain (fun a b => (classifyStrategyFamily a == classifyStrategyFamily b) = true)) :
    Uniform block := by
  intro f hf
  induction block with
  | nil => cases hf
  | cons a block ih =>
      obtain rfl := Option.some.inj hf
      intro item hitem
      rcases List.mem_cons.mp hitem with rfl | hrest
      · rfl
      · cases block with
        | nil => cases hrest
        | cons b block =>
            obtain ⟨heq, hchain⟩ := List.isChain_cons_cons.mp h
            have hab := beq_iff_eq.mp heq
            exact ih hchain (congrArg some hab.symm) item hrest

theorem familyBlocks_uniform (items : List StrategyItem) :
    ∀ block ∈ familyBlocks items, Uniform block :=
  fun _ hblock => uniform_of_isChain (List.isChain_of_mem_splitBy hblock)

theorem sortByFamily_rank (items : List StrategyItem) :
    (sortByFamily items).Pairwise (fun a b =>
      familyRank (classifyStrategyFamily a) ≤ familyRank (classifyStrategyFamily b)) := by
  let before : StrategyItem → StrategyItem → Prop := fun a b =>
    familyRank (classifyStrategyFamily a) < familyRank (classifyStrategyFamily b) ∨
      familyRank (classifyStrategyFamily a) = familyRank (classifyStrategyFamily b) ∧ a.label ≤ b.label
  have htotal : Std.Total before := by
    refine ⟨fun a b => ?_⟩
    rcases lt_trichotomy (familyRank (classifyStrategyFamily a)) (familyRank (classifyStrategyFamily b))
      with hlt | heq | hgt
    · exact Or.inl (Or.inl hlt)
    · exact (le_total a.label b.label).imp (fun h => Or.inr ⟨heq, h⟩) (fun h => Or.inr ⟨heq.symm, h⟩)
    · exact Or.inr (Or.inl hgt)
  have htrans : IsTrans StrategyItem before := by
    refine ⟨fun a b c hab hbc => ?_⟩
    rcases hab with hab | ⟨hab, hlab⟩
    · rcases hbc with hbc | ⟨hbc, _⟩
      · exact Or.inl (hab.trans hbc)
      · exact Or.inl (hbc ▸ hab)
    · rcases hbc with hbc | ⟨hbc, hlbc⟩
      · exact Or.inl (hab ▸ hbc)
      · exact Or.inr ⟨hab.trans hbc, hlab.trans hlbc⟩
  have hsorted : (sortByFamily items).Pairwise before := List.pairwise_insertionSort before items
  refine hsorted.imp (fun {a b} h => ?_)
  rcases h with hlt | ⟨heq, _⟩
  · exact Nat.le_of_lt hlt
  · exact Nat.le_of_eq heq

theorem headFamily_of_ne_nil {block : List StrategyItem} (h : block ≠ []) :
    headFamily block = some (classifyStrategyFamily (block.head h)) := by
  rw [headFamily, List.head?_eq_some_head h]
  rfl

/-- The families of the blocks: neighbours differ, and the ranks rise. -/
theorem headFamilies_chain {blocks : List (List StrategyItem)} (huniform : ∀ block ∈ blocks, Uniform block)
    (hchain : blocks.IsChain (fun a b => ∃ ha hb,
      (classifyStrategyFamily (a.getLast ha) == classifyStrategyFamily (b.head hb)) = false)) :
    (blocks.filterMap headFamily).IsChain (· ≠ ·) := by
  induction blocks with
  | nil => exact List.isChain_nil
  | cons a blocks ih =>
      have hrest := ih (fun block hblock => huniform block (List.mem_cons_of_mem a hblock)) hchain.tail
      cases blocks with
      | nil =>
          cases h : headFamily a with
          | none => simp [h]
          | some f => simp [h]
      | cons b blocks =>
          obtain ⟨⟨ha, hb, hne⟩, _⟩ := List.isChain_cons_cons.mp hchain
          have hfa := headFamily_of_ne_nil ha
          have hfb := headFamily_of_ne_nil hb
          have hlast := huniform a List.mem_cons_self _ hfa _ (List.getLast_mem ha)
          rw [List.filterMap_cons_some hfb] at hrest
          rw [List.filterMap_cons_some hfa, List.filterMap_cons_some hfb]
          refine List.isChain_cons_cons.mpr ⟨?_, hrest⟩
          rw [← hlast]
          exact beq_eq_false_iff_ne.mp hne

theorem headFamilies_sublist (blocks : List (List StrategyItem)) :
    (blocks.filterMap headFamily).Sublist (blocks.flatten.map classifyStrategyFamily) := by
  induction blocks with
  | nil => exact List.Sublist.slnil
  | cons block blocks ih =>
      cases block with
      | nil => exact ih
      | cons item items =>
          have hhead : headFamily (item :: items) = some (classifyStrategyFamily item) := rfl
          rw [List.filterMap_cons_some hhead, List.flatten_cons, List.cons_append, List.map_cons]
          refine List.Sublist.cons_cons _ ?_
          rw [List.map_append]
          exact ih.trans (List.sublist_append_right _ _)

theorem familyBlocks_once (items : List StrategyItem) :
    ((familyBlocks items).filterMap headFamily).Pairwise (fun f g => f = g → familyRank f = 999) := by
  have hchain := List.isChain_getLast_head_splitBy
    (fun a b => classifyStrategyFamily a == classifyStrategyFamily b) (sortByFamily items)
  refine ranked_once (headFamilies_chain (familyBlocks_uniform items) hchain) ?_
  refine List.Pairwise.sublist (headFamilies_sublist _) ?_
  rw [familyBlocks, List.flatten_splitBy, List.pairwise_map]
  exact sortByFamily_rank items

end families

/-- The need flags, so that a statement can speak of each. -/
inductive Flag where
  | fake | hostfakesplit | multisplit | multidisorder | fakedsplit | fakeddisorder
  deriving DecidableEq

def Flag.value (needs : Needs) : Flag → Nat
  | .fake => needs.needFake
  | .hostfakesplit => needs.needHostfakesplit
  | .multisplit => needs.needMultisplit
  | .multidisorder => needs.needMultidisorder
  | .fakedsplit => needs.needFakedsplit
  | .fakeddisorder => needs.needFakeddisorder

/-- The families that a flag is set by. -/
def Flag.setters : Flag → List String
  | .fake => ["fake"]
  | .hostfakesplit => ["hostfake"]
  | .multisplit | .multidisorder => ["multisplit"]
  | .fakedsplit | .fakeddisorder => fakedFamilies

section flags

variable {needs : Needs} {family : String} {hadPass : Bool} {flag : Flag}

theorem value_finishFamily (needs : Needs) (family : String) (hadPass : Bool) (flag : Flag) :
    flag.value (finishFamily needs family hadPass) =
      if family ∈ flag.setters then (if hadPass then 0 else 1) else flag.value needs := by
  rw [finishFamily]
  split
  next hfake => subst hfake; cases flag <;> rfl
  next hfake =>
    split
    next hhostfake => subst hhostfake; cases flag <;> rfl
    next hhostfake =>
      split
      next hmultisplit => subst hmultisplit; cases flag <;> rfl
      next hmultisplit =>
        split
        next hfaked =>
          cases flag with
          | fake => exact (if_neg (fun h => hfake (List.mem_singleton.mp h))).symm
          | hostfakesplit => exact (if_neg (fun h => hhostfake (List.mem_singleton.mp h))).symm
          | multisplit | multidisorder => exact (if_neg (fun h => hmultisplit (List.mem_singleton.mp h))).symm
          | fakedsplit | fakeddisorder => exact (if_pos hfaked).symm
        next hfaked =>
          refine (if_neg (fun h => ?_)).symm
          cases flag with
          | fake => exact hfake (List.mem_singleton.mp h)
          | hostfakesplit => exact hhostfake (List.mem_singleton.mp h)
          | multisplit | multidisorder => exact hmultisplit (List.mem_singleton.mp h)
          | fakedsplit | fakeddisorder => exact hfaked h

/-- Every flag that is zero in the one is zero in the other. -/
def Persist (a b : Needs) : Prop := ∀ flag : Flag, flag.value a = 0 → flag.value b = 0

instance (a b : Needs) : Decidable (Persist a b) :=
  decidable_of_iff (∀ flag ∈ [Flag.fake, .hostfakesplit, .multisplit, .multidisorder, .fakedsplit,
      .fakeddisorder], flag.value a = 0 → flag.value b = 0)
    ⟨fun h flag => h flag (by cases flag <;> decide), fun h flag _ => h flag⟩

theorem Persist.refl (a : Needs) : Persist a a := fun _ h => h

theorem Persist.trans {a b c : Needs} (hab : Persist a b) (hbc : Persist b c) : Persist a c :=
  fun flag h => hbc flag (hab flag h)

theorem value_fresh (flag : Flag) : flag.value {} = 1 := by cases flag <;> rfl

/-- Only a pass reports zero, and only a family that sets the flag. -/
theorem persist_finishFamily {needs : Needs} {family : String} {hadPass : Bool} :
    Persist needs (finishFamily needs family hadPass) ↔
      ∀ flag : Flag, family ∈ flag.setters → flag.value needs = 0 → hadPass = true := by
  constructor
  · intro h flag hset hzero
    have hafter := h flag hzero
    rw [value_finishFamily, if_pos hset] at hafter
    by_contra hpass
    rw [if_neg hpass] at hafter
    exact absurd hafter one_ne_zero
  · intro h flag hzero
    rw [value_finishFamily]
    split
    next hset => rw [if_pos (h flag hset hzero)]
    next => exact hzero

end flags

variable {g : Gates} {t : Turn} {needs : Needs} {blocks : List (List StrategyItem)} {r : BlockRun}
  {runs pre post : List BlockRun} {flag : Flag}

section trace

/-- Each turn begins with the flags that the one before has left. -/
def Follows : Needs → List BlockRun → Prop
  | _, [] => True
  | needs, r :: runs => r.turn.needs = needs ∧ Follows r.after runs

theorem follows_append (h : Follows needs (pre ++ r :: post)) :
    ∃ last, Follows last (r :: post) ∧ ∀ flag : Flag, flag.value last = 0 →
      flag.value needs = 0 ∨ ∃ a ∈ pre, a.family ∈ flag.setters := by
  induction pre generalizing needs with
  | nil => exact ⟨needs, h, fun _ hzero => Or.inl hzero⟩
  | cons a pre ih =>
      obtain ⟨last, hlast, hzero⟩ := ih h.2
      refine ⟨last, hlast, fun flag hflag => ?_⟩
      rcases hzero flag hflag with hafter | ⟨b, hb, hset⟩
      · by_cases hset : a.family ∈ flag.setters
        · exact Or.inr ⟨a, List.mem_cons_self, hset⟩
        · rw [BlockRun.after, value_finishFamily, if_neg hset, h.1] at hafter
          exact Or.inl hafter
      · exact Or.inr ⟨b, List.mem_cons_of_mem a hb, hset⟩

/-- A flag that is zero when a turn begins has been set by an earlier one. -/
theorem zero_setter (h : Follows {} (pre ++ r :: post)) (hzero : flag.value r.turn.needs = 0) :
    ∃ a ∈ pre, a.family ∈ flag.setters := by
  obtain ⟨last, ⟨hlast, _⟩, hback⟩ := follows_append h
  rw [hlast] at hzero
  refine (hback flag hzero).resolve_left (fun hfresh => ?_)
  rw [value_fresh] at hfresh
  exact absurd hfresh one_ne_zero

/-- The one family that sets a flag finds it unset: its block comes once. -/
theorem unset_of_once {family : String} (h : Follows {} runs)
    (honce : (runs.map BlockRun.family).Pairwise (fun f g => f = g → familyRank f = 999))
    (hsetters : flag.setters = [family]) (hrank : familyRank family ≠ 999) (hr : r ∈ runs)
    (hset : r.family ∈ flag.setters) : flag.value r.turn.needs ≠ 0 := by
  intro hzero
  obtain ⟨pre, post, rfl⟩ := List.append_of_mem hr
  obtain ⟨a, ha, haset⟩ := zero_setter h hzero
  rw [hsetters, List.mem_singleton] at hset haset
  rw [List.map_append, List.pairwise_append] at honce
  have hranked := honce.2.2 a.family (List.mem_map_of_mem ha) r.family List.mem_cons_self
    (haset.trans hset.symm)
  rw [haset] at hranked
  exact hrank hranked

/-- The states of the tracker, none of which loses a zero, step by step. -/
theorem chain_persist_iff (h : Follows needs runs) :
    (needs :: runs.map BlockRun.after).IsChain Persist ↔ ∀ r ∈ runs, Persist r.turn.needs r.after := by
  induction runs generalizing needs with
  | nil => exact ⟨fun _ _ hr => absurd hr List.not_mem_nil, fun _ => List.isChain_singleton _⟩
  | cons r runs ih =>
      rw [List.map_cons, List.isChain_cons_cons, ih h.2, List.forall_mem_cons, h.1]

theorem persist_of_follows (h : Follows needs runs) (hpersist : ∀ r ∈ runs, Persist r.turn.needs r.after) :
    ∀ r ∈ runs, Persist needs r.turn.needs := by
  induction runs generalizing needs with
  | nil => exact fun r hr => absurd hr List.not_mem_nil
  | cons a runs ih =>
      intro r hr
      rcases List.mem_cons.mp hr with rfl | hr
      · rw [h.1]
        exact Persist.refl needs
      · have hfirst := hpersist a List.mem_cons_self
        rw [h.1] at hfirst
        exact hfirst.trans (ih h.2 (fun b hb => hpersist b (List.mem_cons_of_mem a hb)) r hr)

theorem persist_pairwise (h : Follows needs runs) (hpersist : ∀ r ∈ runs, Persist r.turn.needs r.after) :
    runs.Pairwise (fun a b => Persist a.after b.turn.needs) := by
  induction runs generalizing needs with
  | nil => exact List.Pairwise.nil
  | cons a runs ih =>
      have hrest : ∀ r ∈ runs, Persist r.turn.needs r.after :=
        fun r hr => hpersist r (List.mem_cons_of_mem a hr)
      exact List.pairwise_cons.mpr ⟨persist_of_follows h.2 hrest, ih h.2 hrest⟩

end trace

section turns

theorem runBlock_keeps (g : Gates) (t : Turn) (family : String) (block : List StrategyItem) :
    (g.runBlock t family block).turn = t ∧ (g.runBlock t family block).family = family ∧
      (g.runBlock t family block).items = block := by
  rw [Gates.runBlock]
  split
  · exact ⟨rfl, rfl, rfl⟩
  · dsimp only
    split
    · exact ⟨rfl, rfl, rfl⟩
    · exact ⟨rfl, rfl, rfl⟩

theorem mem_probeItems {stop : Option Nat} {clock : Nat} {items : List StrategyItem}
    {p : StrategyItem × Probe} (h : p ∈ g.probeItems stop clock items) : p.1 ∈ items := by
  induction items generalizing stop clock with
  | nil => cases h
  | cons item items ih =>
      rw [Gates.probeItems] at h
      split at h
      · cases h
      · rcases List.mem_cons.mp h with rfl | hrest
        · exact List.mem_cons_self
        · split at hrest
          · cases hrest
          · exact List.mem_cons_of_mem item (ih hrest)

/-- What a turn probes, its gates have let through. -/
theorem mem_runBlock_probed {family : String} {block : List StrategyItem} {p : StrategyItem × Probe}
    (h : p ∈ (g.runBlock t family block).probed) : p.1 ∈ block ∧ g.selects t p.1 = true := by
  rw [Gates.runBlock] at h
  split at h
  · cases h
  · dsimp only at h
    split at h
    · cases h
    · exact List.mem_filter.mp (mem_probeItems h)

theorem hadPass_of_probed {family : String} {block : List StrategyItem} {p : StrategyItem × Probe}
    (h : p ∈ (g.runBlock t family block).probed) (hpass : succeeded p = true) :
    (g.runBlock t family block).hadPass = true := by
  rw [Gates.runBlock] at h ⊢
  split at h
  · cases h
  next hskip =>
    rw [if_neg hskip]
    dsimp only at h ⊢
    split at h
    · cases h
    next hselected =>
      rw [if_neg hselected]
      exact List.any_eq_true.mpr ⟨p, h, hpass⟩

/-- The outcomes of the items, should the call probe them all from here on. -/
def outcomes (g : Gates) (clock : Nat) (items : List StrategyItem) : List (StrategyItem × Probe) :=
  items.mapIdx (fun i item => (item, g.probe (clock + i) item))

def beforeStop {α : Type} (stop : Option Nat) (items : List α) : List α :=
  match stop with
  | none => items
  | some n => items.take n

/-- The block has a pass to report: a probe's that comes before the stop event,
or a resumed item's if the gates let nothing through. -/
def passes (g : Gates) (t : Turn) (block : List StrategyItem) : Bool :=
  let selected := block.filter (g.selects t)
  if selected = [] then block.any (g.knownPass t)
  else (beforeStop t.stop (outcomes g t.clock selected)).any succeeded

theorem outcomes_cons (g : Gates) (clock : Nat) (item : StrategyItem) (items : List StrategyItem) :
    outcomes g clock (item :: items) = (item, g.probe clock item) :: outcomes g (clock + 1) items := by
  rw [outcomes, List.mapIdx_cons, outcomes]
  have hshift : (fun i (item : StrategyItem) => (item, g.probe (clock + (i + 1)) item)) =
      fun i item => (item, g.probe (clock + 1 + i) item) := by
    funext i item
    rw [Nat.add_right_comm, Nat.add_assoc]
  rw [hshift]
  rfl

theorem beforeStop_cons {α : Type} {stop : Option Nat} (h : stop ≠ some 0) (a : α) (items : List α) :
    beforeStop stop (a :: items) = a :: beforeStop (stop.map (· - 1)) items := by
  cases stop with
  | none => rfl
  | some n =>
      cases n with
      | zero => exact absurd rfl h
      | succ n => rfl

theorem probeItems_any (g : Gates) (stop : Option Nat) (clock : Nat) (items : List StrategyItem) :
    (g.probeItems stop clock items).any succeeded = (beforeStop stop (outcomes g clock items)).any succeeded := by
  induction items generalizing stop clock with
  | nil =>
      cases stop with
      | none => rfl
      | some n => exact congrArg (List.any · succeeded) List.take_nil.symm
  | cons item items ih =>
      rw [Gates.probeItems, outcomes_cons]
      split
      next hstop => rw [hstop]; rfl
      next hstop =>
        rw [beforeStop_cons hstop, List.any_cons, List.any_cons]
        split
        next hsingle =>
          have hpass : succeeded (item, g.probe clock item) = true := hsingle.2
          rw [hpass, Bool.true_or, Bool.true_or]
        next => rw [ih]

theorem hadPass_eq_passes {family : String} (h : skipFamily t.needs.toFamilyNeedTracker family g.scanLevel = false)
    (block : List StrategyItem) : (g.runBlock t family block).hadPass = passes g t block := by
  rw [Gates.runBlock, passes, if_neg (Bool.eq_false_iff.mp h)]
  dsimp only
  split
  · rfl
  · exact probeItems_any ..

end turns

section loop

/-- What the loop does with its first block, if it gets there. -/
theorem runBlocks_cons (g : Gates) (t : Turn) (item : StrategyItem) (items : List StrategyItem)
    (blocks : List (List StrategyItem)) :
    g.runBlocks t ((item :: items) :: blocks) = [] ∨
      ∃ r t', r = g.runBlock t' (classifyStrategyFamily item) (item :: items) ∧ t'.needs = t.needs ∧
        (g.runBlocks t ((item :: items) :: blocks) = [r] ∨
          g.runBlocks t ((item :: items) :: blocks) = r :: g.runBlocks (g.next r) blocks) := by
  rw [Gates.runBlocks]
  split
  · exact Or.inl rfl
  · refine Or.inr ⟨_, { t with stop := t.stop.map (· - 1) }, rfl, rfl, ?_⟩
    dsimp only
    split
    · exact Or.inl rfl
    · exact Or.inr rfl

theorem runBlocks_follows (g : Gates) (t : Turn) (blocks : List (List StrategyItem)) :
    Follows t.needs (g.runBlocks t blocks) := by
  induction blocks generalizing t with
  | nil => trivial
  | cons block blocks ih =>
      cases block with
      | nil => exact ih t
      | cons item items =>
          rcases runBlocks_cons g t item items blocks with hstop | ⟨r, t', rfl, hneeds, hlast | hmore⟩
          · rw [hstop]
            trivial
          · rw [hlast]
            exact ⟨(congrArg Turn.needs (runBlock_keeps ..).1).trans hneeds, trivial⟩
          · rw [hmore]
            exact ⟨(congrArg Turn.needs (runBlock_keeps ..).1).trans hneeds, ih (g.next _)⟩

theorem runBlocks_families (g : Gates) (t : Turn) (blocks : List (List StrategyItem)) :
    ((g.runBlocks t blocks).map BlockRun.family).Sublist (blocks.filterMap headFamily) := by
  induction blocks generalizing t with
  | nil => exact List.Sublist.slnil
  | cons block blocks ih =>
      cases block with
      | nil => exact ih t
      | cons item items =>
          have hhead : headFamily (item :: items) = some (classifyStrategyFamily item) := rfl
          rw [List.filterMap_cons_some hhead]
          rcases runBlocks_cons g t item items blocks with hstop | ⟨r, t', rfl, _, hlast | hmore⟩
          · rw [hstop]
            exact List.nil_sublist _
          · rw [hlast, List.map_singleton, (runBlock_keeps ..).2.1]
            exact List.Sublist.cons_cons _ (List.nil_sublist _)
          · rw [hmore, List.map_cons, (runBlock_keeps ..).2.1]
            exact List.Sublist.cons_cons _ (ih _)

/-- Every turn of the loop is one at a block with the family of its first item. -/
theorem mem_runBlocks (hr : r ∈ g.runBlocks t blocks) :
    r = g.runBlock r.turn r.family r.items ∧ r.items ∈ blocks ∧ headFamily r.items = some r.family := by
  induction blocks generalizing t with
  | nil => cases hr
  | cons block blocks ih =>
      cases block with
      | nil =>
          obtain ⟨hrun, hitems, hhead⟩ := ih hr
          exact ⟨hrun, List.mem_cons_of_mem _ hitems, hhead⟩
      | cons item items =>
          have hfirst (t' : Turn) : let first := g.runBlock t' (classifyStrategyFamily item) (item :: items)
              first = g.runBlock first.turn first.family first.items ∧
                first.items ∈ (item :: items) :: blocks ∧ headFamily first.items = some first.family := by
            obtain ⟨hturn, hfamily, hitems⟩ :=
              runBlock_keeps g t' (classifyStrategyFamily item) (item :: items)
            dsimp only
            rw [hturn, hfamily, hitems]
            exact ⟨rfl, List.mem_cons_self, rfl⟩
          rcases runBlocks_cons g t item items blocks with hstop | ⟨_, t', rfl, _, hlast | hmore⟩
          · rw [hstop] at hr
            cases hr
          · rw [hlast, List.mem_singleton] at hr
            rw [hr]
            exact hfirst t'
          · rw [hmore] at hr
            rcases List.mem_cons.mp hr with rfl | hrest
            · exact hfirst t'
            · obtain ⟨hrun, hitems, hhead⟩ := ih hrest
              exact ⟨hrun, List.mem_cons_of_mem _ hitems, hhead⟩

end loop

section gating

/-- What need_multisplit and the two flags of the faked families gate. -/
def Dependent (family : String) (item : StrategyItem) : Prop :=
  let strat := item.strategy.toList
  family = "multisplit" ∧ (contains strat "multisplit" = true ∨ contains strat "multidisorder" = true) ∨
    family ∈ fakedFamilies ∧ (contains strat "fakedsplit" = true ∨ contains strat "fakeddisorder" = true)

instance (family : String) (item : StrategyItem) : Decidable (Dependent family item) :=
  inferInstanceAs (Decidable (_ ∧ _ ∨ _ ∧ _))

/-- Once the block of a family with a success is finished, nothing of a later
block that depends on it is executed. -/
def Gated (runs : List BlockRun) : Prop :=
  runs.Pairwise (fun a b => ∀ p ∈ a.probed, succeeded p = true →
    ∀ q ∈ b.probed, ¬ Dependent (classifyStrategyFamily p.1) q.1)

instance (runs : List BlockRun) : Decidable (Gated runs) :=
  inferInstanceAs (Decidable (List.Pairwise _ _))

/-- The states of the need flags, from the fresh ones on. -/
def states (runs : List BlockRun) : List Needs := {} :: runs.map BlockRun.after

/-- A faked family whose turn begins after another has passed has a pass too. -/
def Confirms (g : Gates) (r : BlockRun) : Prop :=
  r.family ∈ fakedFamilies → r.turn.needs.needFakedsplit = 0 → passes g r.turn r.items = true

instance (g : Gates) (r : BlockRun) : Decidable (Confirms g r) := inferInstanceAs (Decidable (_ → _ → _))

theorem not_dependent {family : String} {item : StrategyItem} (hlevel : g.scanLevel ≠ "full")
    (hzero : ∀ flag : Flag, family ∈ flag.setters → flag.value needs = 0)
    (h : skipStrategy needs.toFamilyNeedTracker item g.scanLevel = false) : ¬ Dependent family item := by
  rw [skipStrategy, if_neg hlevel] at h
  simp only [Bool.or_eq_false_iff, Bool.and_eq_false_iff, decide_eq_false_iff_not] at h
  obtain ⟨⟨hmultisplit, hfakedsplit⟩, hfakeddisorder⟩ := h
  rintro (⟨hfamily, hcontains⟩ | ⟨hfamily, hcontains⟩)
  · have hflag := hzero .multisplit (List.mem_singleton.mpr hfamily)
    obtain ⟨hsplit, hdisorder⟩ := hmultisplit.resolve_left (fun h => h hflag)
    rcases hcontains with hcontains | hcontains
    · exact absurd hcontains (Bool.eq_false_iff.mp hsplit)
    · exact absurd hcontains (Bool.eq_false_iff.mp hdisorder)
  · rcases hcontains with hcontains | hcontains
    · have hflag := hzero .fakedsplit hfamily
      exact absurd hcontains (Bool.eq_false_iff.mp (hfakedsplit.resolve_left (fun h => h hflag)))
    · have hflag := hzero .fakeddisorder hfamily
      exact absurd hcontains (Bool.eq_false_iff.mp (hfakeddisorder.resolve_left (fun h => h hflag)))

theorem gated_of_persist (hlevel : g.scanLevel ≠ "full") (hruns : ∀ r ∈ runs, r ∈ g.runBlocks t blocks)
    (huniform : ∀ block ∈ blocks, Uniform block)
    (hpersist : runs.Pairwise (fun a b => Persist a.after b.turn.needs)) : Gated runs := by
  refine hpersist.imp_of_mem (fun {a b} ha hb hab p hp hpass q hq => ?_)
  obtain ⟨hrun, hitems, hhead⟩ := mem_runBlocks (hruns a ha)
  obtain ⟨hrunb, _, _⟩ := mem_runBlocks (hruns b hb)
  rw [hrun] at hp
  rw [hrunb] at hq
  have hfamily := huniform a.items hitems a.family hhead p.1 (mem_runBlock_probed hp).1
  have hhadPass := hadPass_of_probed hp hpass
  rw [← hrun] at hhadPass
  have hselects := (mem_runBlock_probed hq).2
  rw [Gates.selects, Bool.and_eq_true, Bool.not_eq_true', Bool.not_eq_true'] at hselects
  rw [hfamily]
  refine not_dependent hlevel (fun flag hset => hab flag ?_) hselects.2
  rw [BlockRun.after, value_finishFamily, if_pos hset, if_pos hhadPass]

/-- The two flags of the faked families are set together. -/
theorem fakeddisorder_eq (h : Follows needs runs) (heq : needs.needFakeddisorder = needs.needFakedsplit) :
    ∀ r ∈ runs, r.turn.needs.needFakeddisorder = r.turn.needs.needFakedsplit := by
  induction runs generalizing needs with
  | nil => exact fun r hr => absurd hr List.not_mem_nil
  | cons a runs ih =>
      rw [← h.1] at heq
      have hafter : a.after.needFakeddisorder = a.after.needFakedsplit := by
        have hone := value_finishFamily a.turn.needs a.family a.hadPass .fakeddisorder
        have htwo := value_finishFamily a.turn.needs a.family a.hadPass .fakedsplit
        exact hone.trans ((congrArg (ite _ _) heq).trans htwo.symm)
      exact List.forall_mem_cons.mpr ⟨heq, ih h.2 hafter⟩

theorem confirms_iff (hr : r ∈ g.runBlocks t blocks) :
    Confirms g r ↔ (r.family ∈ fakedFamilies → r.turn.needs.needFakedsplit = 0 → r.hadPass = true) := by
  have hpasses : r.family ∈ fakedFamilies → r.hadPass = passes g r.turn r.items := by
    intro hfaked
    rw [congrArg BlockRun.hadPass (mem_runBlocks hr).1]
    refine hadPass_eq_passes ?_ r.items
    rw [skipFamily]
    split
    · rfl
    · refine decide_eq_false (fun h => ?_)
      rw [h.1] at hfaked
      exact absurd hfaked (by decide)
  exact forall_congr' (fun hfaked => by rw [hpasses hfaked])

/-- Monotone exactly if every turn of a faked family that finds the flags unset
by another has a pass of its own to report. -/
theorem needs_stay_zero_iff (g : Gates) (hlevel : g.scanLevel ≠ "full") (resume : Option Resume)
    (stop : Option Nat) (items : List StrategyItem) :
    let runs := g.runTcpWithFamilyGates resume stop items
    Gated runs ∧ (states runs).Pairwise Persist ↔ ∀ r ∈ runs, Confirms g r := by
  intro runs
  have hfollows : Follows {} runs := runBlocks_follows g { stop, resume } (familyBlocks items)
  have honce : (runs.map BlockRun.family).Pairwise (fun f g => f = g → familyRank f = 999) :=
    (familyBlocks_once items).sublist (runBlocks_families g _ _)
  have hequal := fakeddisorder_eq hfollows rfl
  have hstates : (states runs).Pairwise Persist ↔ ∀ r ∈ runs, Persist r.turn.needs r.after := by
    have htrans : IsTrans Needs Persist := ⟨fun _ _ _ => Persist.trans⟩
    rw [← List.isChain_iff_pairwise]
    exact chain_persist_iff hfollows
  have hstep : (∀ r ∈ runs, Persist r.turn.needs r.after) ↔ ∀ r ∈ runs, Confirms g r := by
    refine forall₂_congr (fun r hr => ?_)
    rw [confirms_iff hr, BlockRun.after, persist_finishFamily]
    constructor
    · exact fun h hfaked hzero => h .fakedsplit hfaked hzero
    · intro h flag hset hzero
      cases flag with
      | fake => exact absurd hzero (unset_of_once hfollows honce rfl (by decide) hr hset)
      | hostfakesplit => exact absurd hzero (unset_of_once hfollows honce rfl (by decide) hr hset)
      | multisplit => exact absurd hzero (unset_of_once hfollows honce rfl (by decide) hr hset)
      | multidisorder => exact absurd hzero (unset_of_once hfollows honce rfl (by decide) hr hset)
      | fakedsplit => exact h hset hzero
      | fakeddisorder => exact h hset ((hequal r hr).symm.trans hzero)
  rw [hstates, hstep]
  refine and_iff_right_of_imp (fun hconfirms => ?_)
  refine gated_of_persist hlevel (fun r hr => hr) (familyBlocks_uniform items) ?_
  exact persist_pairwise hfollows (hstep.mpr hconfirms)

/-- A scan of one domain on which the strategies of some labels pass. -/
def scan (passing : List String) : Gates where
  domain := "a.com"
  scanLevel := "standard"
  runId := 1
  probe := fun _ item => { result := { item, domain := "a.com", success := decide (item.label ∈ passing) } }

def fakedItems : List StrategyItem :=
  [{ label := "std_fds_1", strategy := "fakedsplit:pos=1" },
    { label := "std_fdd_1", strategy := "fakeddisorder:pos=1" },
    { label := "std_ffds_1", strategy := "fake:ttl=1 fakedsplit:pos=2" }]

theorem lastPasses_stay_zero :
    let runs := (scan ["std_fdd_1"]).runTcpWithFamilyGates none none fakedItems
    Gated runs ∧ (states runs).Pairwise Persist :=
  (needs_stay_zero_iff (scan ["std_fdd_1"]) (by decide) none none fakedItems).mpr (by decide +kernel)

/-- The block of fakeddisorder is skipped whole, and finished without a pass. -/
theorem firstPasses_reset :
    let runs := (scan ["std_fds_1"]).runTcpWithFamilyGates none none fakedItems
    ¬ Gated runs ∧ ¬ (states runs).Pairwise Persist := by
  decide +kernel

end gating

end Blockchecks.FamilyMonotone
