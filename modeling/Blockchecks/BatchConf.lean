import Blockchecks.ConfRun
import Blockchecks.KeyedBlocks

namespace Blockchecks.BatchConf

open StrategyText LuaConf NfqwsConfig StickyOptions ConfRun KeyedBlocks

/-- What is relied on of nfqws2: an added number is read back, and only an
argument that is written is read. -/
structure ReadsStrategy (strategyArg : List Char → Option Nat) : Prop where
  added : ∀ text n, contains text ":strategy=" = false → strategyArg (text ++ tag n) = some n
  written : ∀ text n, strategyArg text = some n → contains text ":strategy=" = true

abbrev Settings := Setting → Option (List Char)

/-- The instances of each strategy in a conf that has them one after another. -/
def batches (options : Settings) : Nat → List (List (Line Source)) → List (List (Desync (List Char)))
  | _, [] => []
  | n, ds :: rest =>
      (instances options ds).map (Instance.mapCore (Source.emit n)) ::
        batches (after options ds) (n + 1) rest

theorem instances_zipIdx (options : Settings) (n : Nat) (strategies : List (List (Line Source))) :
    instances options ((strategies.zipIdx n).flatMap
      (fun p => p.1.map (Directive.mapCore (Source.emit p.2)))) =
      (batches options n strategies).flatten := by
  induction strategies generalizing options n with
  | nil => rfl
  | cons ds rest ih =>
      rw [List.zipIdx_cons, List.flatMap_cons, instances_append, instances_mapCore, after_mapCore,
        ih, batches, List.flatten_cons]

theorem batches_getElem? (options : Settings) (n i : Nat) (strategies : List (List (Line Source))) :
    (batches options n strategies)[i]? = (strategies[i]?).map (fun ds =>
      (instances (after options (strategies.take i).flatten) ds).map
        (Instance.mapCore (Source.emit (n + i)))) := by
  induction strategies generalizing options n i with
  | nil => rfl
  | cons ds rest ih =>
      cases i with
      | zero => rfl
      | succ i =>
          rw [batches, List.getElem?_cons_succ, List.getElem?_cons_succ, ih, List.take_succ_cons,
            List.flatten_cons, after_append, Nat.add_assoc, Nat.add_comm 1 i]

/-- The numbers that the desyncs of a strategy already have are its own. -/
def OwnNumbers (strategyArg : List Char → Option Nat) (n : Nat) (ds : List (Line Source)) : Prop :=
  ∀ core, .use core ∈ ds → core.tagged = true ∨ strategyArg core.text = some n

/-- Earlier strategies leave the options as a strategy alone finds them, or it
sets them itself. -/
def OwnOptions (base options : Settings) (ds : List (Line Source)) : Prop :=
  ∀ setting, options setting = base setting ∨ SetsFirst setting ds

theorem use_mem_iff {core : Source} {options : Settings} {ds : List (Line Source)} :
    core ∈ (instances options ds).map Instance.core ↔ Directive.use core ∈ ds := by
  induction ds generalizing options with
  | nil => simp [instances]
  | cons d ds ih =>
      cases d with
      | set kind value => simp [instances, ih]
      | use other => simp [instances, ih]
      | other => simp [instances, ih]

variable {strategyArg : List Char → Option Nat} {n : Nat}

theorem emit_reads_iff (h : ReadsStrategy strategyArg) (core : Source) :
    strategyArg (core.emit n) = some n ↔ core.tagged = true ∨ strategyArg core.text = some n := by
  rw [Source.emit]
  cases htagged : core.tagged with
  | true =>
      rw [if_pos rfl]
      exact iff_of_true (h.added core.text n (core.untagged htagged)) (Or.inl rfl)
  | false => simp

theorem ownNumbers_iff (h : ReadsStrategy strategyArg) {options : Settings}
    {ds : List (Line Source)} :
    (∀ i ∈ (instances options ds).map (Instance.mapCore (Source.emit n)),
      strategyArg i.core = some n) ↔ OwnNumbers strategyArg n ds := by
  rw [OwnNumbers, List.forall_mem_map]
  constructor
  · intro hall core hcore
    rw [← @use_mem_iff core options ds] at hcore
    obtain ⟨i, hi, rfl⟩ := List.mem_map.mp hcore
    exact (emit_reads_iff h i.core).mp (hall i hi)
  · intro hall i hi
    exact (emit_reads_iff h i.core).mpr
      (hall i.core (use_mem_iff.mp (List.mem_map_of_mem hi)))

theorem forall₂_options_iff {C : Desync Source → Desync Source → Prop}
    (hC : ∀ x y, x.core = y.core → C x y) {xs ys : List (Desync Source)}
    (hcores : xs.map Instance.core = ys.map Instance.core) :
    List.Forall₂ (fun x y => x.options = y.options ∧ C x y) xs ys ↔
      xs.map Instance.options = ys.map Instance.options := by
  induction xs generalizing ys with
  | nil =>
      cases ys with
      | nil => simp
      | cons y ys => cases hcores
  | cons x xs ih =>
      cases ys with
      | nil => cases hcores
      | cons y ys =>
          obtain ⟨hhead, htail⟩ := List.cons.inj hcores
          rw [List.forall₂_cons, ih htail, List.map_cons, List.map_cons, List.cons_eq_cons,
            and_iff_left (hC x y hhead)]

theorem emit_same (core : Source) : core.emit n = core.text ∨ core.emit n = core.text ++ tag n := by
  rw [Source.emit]
  split
  · exact Or.inr rfl
  · exact Or.inl rfl

/-- The desyncs of a strategy, selected by its number, run as they do alone
exactly when they find the same options. -/
theorem sameRun_own_iff {base options : Settings} {ds : List (Line Source)} :
    SameRun n ((instances options ds).map (Instance.mapCore (Source.emit n)))
      ((instances base ds).map (Instance.mapCore Source.text)) ↔ OwnOptions base options ds := by
  rw [SameRun, List.forall₂_map_left_iff, List.forall₂_map_right_iff, OwnOptions,
    ← options_instances_eq_iff]
  refine forall₂_options_iff (fun x y hcore => ?_) (cores_instances options base ds)
  change x.core.emit n = y.core.text ∨ x.core.emit n = y.core.text ++ tag n
  rw [← hcore]
  exact emit_same x.core

abbrev textLength (i : Desync (List Char)) : Nat := i.core.length

abbrev number (strategyArg : List Char → Option Nat) (i : Desync (List Char)) : Option Nat :=
  strategyArg i.core

/-- What scan_pick may execute in the place of a desync. -/
theorem dominates_emit (h : ReadsStrategy strategyArg) {i : Desync (List Char)}
    {x : Desync Source} (hreads : strategyArg i.core = some n)
    (hsame : i.core = x.core.text ∨ i.core = x.core.text ++ tag n) :
    Dominates textLength (number strategyArg) i (x.mapCore (Source.emit n)) := by
  have hlen : 0 < (tag n).length := by simp [tag]
  cases htagged : x.core.tagged with
  | true =>
      have hemit : (x.mapCore (Source.emit n)).core = x.core.text ++ tag n := if_pos htagged
      have hcore : i.core = x.core.text ++ tag n := by
        refine hsame.resolve_left (fun htext => ?_)
        have hcontains := h.written _ _ hreads
        rw [htext, x.core.untagged htagged] at hcontains
        cases hcontains
      exact Or.inl (by rw [number, number, textLength, textLength, hemit, hcore]; exact ⟨rfl, rfl⟩)
  | false =>
      have hemit : (x.mapCore (Source.emit n)).core = x.core.text := if_neg (by simp [htagged])
      rcases hsame with htext | hlonger
      · exact Or.inl (by rw [number, number, textLength, textLength, hemit, htext]; exact ⟨rfl, rfl⟩)
      · right
        rw [textLength, textLength, hemit, hlonger, List.length_append]
        omega

theorem dominates_of_sameRun (h : ReadsStrategy strategyArg) {base options : Settings}
    {ds : List (Line Source)} {selected : List (Desync (List Char))}
    (hreads : ∀ i ∈ selected, strategyArg i.core = some n)
    (hsame : SameRun n selected ((instances base ds).map (Instance.mapCore Source.text))) :
    List.Forall₂ (Dominates textLength (number strategyArg)) selected
      ((instances options ds).map (Instance.mapCore (Source.emit n))) := by
  have hcores : List.Forall₂ (fun i core => i.core = core.text ∨ i.core = core.text ++ tag n)
      selected ((instances options ds).map Instance.core) := by
    rw [← cores_instances base options ds, List.forall₂_map_right_iff]
    rw [SameRun, List.forall₂_map_right_iff] at hsame
    exact hsame.imp (fun _ _ hix => hix.2)
  rw [List.forall₂_map_right_iff] at hcores ⊢
  exact ((List.forall₂_and_left _ _).mpr ⟨hreads, hcores⟩).imp
    (fun _ _ hix => dominates_emit h hix.1 hix.2)

/-- The runs of all strategies in a batch are those they have alone exactly when
each has no number but its own and finds the options that it finds alone. -/
theorem runs_iff (h : ReadsStrategy strategyArg) (base : Settings)
    (strategies : List (List (Line Source))) :
    (∀ i ds, strategies[i]? = some ds →
      SameRun (1 + i) (scanPick strategyArg (1 + i) (batches base 1 strategies).flatten)
        ((instances base ds).map (Instance.mapCore Source.text))) ↔
    ∀ i ds, strategies[i]? = some ds → OwnNumbers strategyArg (1 + i) ds ∧
      OwnOptions base (after base (strategies.take i).flatten) ds := by
  have hblock : ∀ i ds, strategies[i]? = some ds → (batches base 1 strategies)[i]? =
      some ((instances (after base (strategies.take i).flatten) ds).map
        (Instance.mapCore (Source.emit (1 + i)))) := by
    intro i ds hds
    rw [batches_getElem?, hds, Option.map_some]
  have hown : (∀ i ds, strategies[i]? = some ds → OwnNumbers strategyArg (1 + i) ds) →
      Each (fun k b => ∀ y ∈ b, number strategyArg y = some k) 1 (batches base 1 strategies) := by
    intro hnumbers i b hb
    rw [batches_getElem?] at hb
    obtain ⟨ds, hds, rfl⟩ := Option.map_eq_some_iff.mp hb
    exact (ownNumbers_iff h).mpr (hnumbers i ds hds)
  constructor
  · intro hruns
    have hkeys : Each (fun k b => ∀ y ∈ b, number strategyArg y = some k) 1
        (batches base 1 strategies) := by
      refine @key_of_dominates _ textLength _ _ _ (fun i b hb => ?_)
      rw [batches_getElem?] at hb
      obtain ⟨ds, hds, rfl⟩ := Option.map_eq_some_iff.mp hb
      refine dominates_of_sameRun h (fun j hj => ?_) (hruns i ds hds)
      exact of_decide_eq_true (List.mem_filter.mp hj).2
    intro i ds hds
    have hrun := hruns i ds hds
    have hselect : scanPick strategyArg (1 + i) (batches base 1 strategies).flatten = _ :=
      select_flatten hkeys i _ (hblock i ds hds)
    rw [hselect] at hrun
    exact ⟨(ownNumbers_iff h).mp (hkeys i _ (hblock i ds hds)), sameRun_own_iff.mp hrun⟩
  · intro hcond i ds hds
    have hselect : scanPick strategyArg (1 + i) (batches base 1 strategies).flatten = _ :=
      select_flatten (hown (fun i ds hds => (hcond i ds hds).1)) i _ (hblock i ds hds)
    rw [hselect]
    exact sameRun_own_iff.mpr (hcond i ds hds).2

end Blockchecks.BatchConf
