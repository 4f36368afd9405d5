import Blockchecks.WeightChanges

namespace Blockchecks.WeightLaws

open BlobFilter FamilyRegistry OrderedDict ScanWeights ScanWeights.Weights StrategyText TriageProfiles WeightChanges

def raise (default boost : ℚ) (weight : Option ℚ) : Option ℚ := some (min (weight.getD default + boost) maxWeight)

/-- How much a key gains depends only on how often it is boosted. -/
theorem get?_bumps (default boost : ℚ) (keys : List String) (d : Dict String ℚ) (k : String) :
    (keys.foldl (fun d key => bump d default boost key) d).get? k =
      (raise default boost)^[keys.count k] (d.get? k) := by
  induction keys generalizing d with
  | nil => rfl
  | cons key keys ih =>
      rw [List.foldl_cons, ih, bump, Dict.get?_set]
      by_cases hk : k = key
      · subst hk
        rw [if_pos rfl, List.count_cons_self, Function.iterate_succ_apply]
        rfl
      · rw [if_neg hk, List.count_cons_of_ne (Ne.symm hk)]

theorem boosts_family (passes : List Pass) (w : Weights) : (passes.foldl boost w).family =
    (passes.map Pass.family).foldl (fun d key => bump d 1 w.familyBoost key) w.family := by
  induction passes generalizing w with
  | nil => rfl
  | cons pass passes ih =>
      rw [List.foldl_cons, ih]
      rfl

theorem boosts_blob (passes : List Pass) (w : Weights) : (passes.foldl boost w).blob =
    (passes.flatMap Pass.blobs).foldl (fun d key => bump d 0 w.blobBoost key) w.blob := by
  induction passes generalizing w with
  | nil => rfl
  | cons pass passes ih =>
      rw [List.foldl_cons, ih, List.flatMap_cons, List.foldl_append]
      rfl

theorem boosts_trait (passes : List Pass) (w : Weights) : (passes.foldl boost w).trait =
    (passes.flatMap Pass.traits).foldl (fun d key => bump d 0 w.traitBoost key) w.trait := by
  induction passes generalizing w with
  | nil => rfl
  | cons pass passes ih =>
      rw [List.foldl_cons, ih, List.flatMap_cons, List.foldl_append]
      rfl

theorem boosts_perm {passes passes' : List Pass} (h : passes.Perm passes') (w : Weights) :
    SameMaps (passes.foldl boost w) (passes'.foldl boost w) where
  family k := by
    rw [boosts_family, boosts_family, get?_bumps, get?_bumps, (h.map Pass.family).count_eq]
  blob k := by
    rw [boosts_blob, boosts_blob, get?_bumps, get?_bumps, (h.flatMap_right Pass.blobs).count_eq]
  trait k := by
    rw [boosts_trait, boosts_trait, get?_bumps, get?_bumps, (h.flatMap_right Pass.traits).count_eq]

section Seeds

variable {default : ℚ}

theorem seed_kept {d : Dict String ℚ} {k : String} {v : ℚ} (h : d.get? k = some v) (hv : v ≤ maxWeight)
    (key : String) : (seed default d key).get? k = some v := by
  rw [seed, Dict.get?_set]
  by_cases hk : k = key
  · subst hk
    rw [if_pos rfl, h, Option.getD_some, min_eq_left hv]
  · rw [if_neg hk, h]

theorem seeds_kept {d : Dict String ℚ} {k : String} {v : ℚ} (h : d.get? k = some v) (hv : v ≤ maxWeight)
    (keys : List String) : (keys.foldl (seed default) d).get? k = some v := by
  induction keys generalizing d with
  | nil => exact h
  | cons key keys ih => exact ih (seed_kept h hv key)

/-- A key with a weight within the cap, on which a seed has no effect. -/
def Settled (d : Dict String ℚ) (k : String) : Prop := ∃ v, v ≤ maxWeight ∧ d.get? k = some v

theorem settled_seeds_of_settled {d : Dict String ℚ} {k : String} (h : Settled d k) (keys : List String) :
    Settled (keys.foldl (seed default) d) k :=
  h.imp fun _ hv => ⟨hv.1, seeds_kept hv.2 hv.1 keys⟩

theorem settled_seed (d : Dict String ℚ) (key : String) : Settled (seed default d key) key :=
  ⟨_, min_le_right _ _, by rw [seed, Dict.get?_set, if_pos rfl]⟩

theorem settled_seeds {keys : List String} {k : String} (hk : k ∈ keys) (d : Dict String ℚ) :
    Settled (keys.foldl (seed default) d) k := by
  induction keys generalizing d with
  | nil => exact absurd hk List.not_mem_nil
  | cons key keys ih =>
      rcases List.mem_cons.mp hk with rfl | hk
      · exact settled_seeds_of_settled (settled_seed d k) keys
      · exact ih hk _

theorem seed_of_settled {d : Dict String ℚ} {k : String} (h : Settled d k) : seed default d k = d := by
  obtain ⟨v, hv, hget⟩ := h
  rw [seed, hget, Option.getD_some, min_eq_left hv]
  exact Dict.set_same hget

theorem seeds_of_settled {keys : List String} {d : Dict String ℚ} (h : ∀ k ∈ keys, Settled d k) :
    keys.foldl (seed default) d = d := by
  induction keys with
  | nil => rfl
  | cons key keys ih =>
      rw [List.foldl_cons, seed_of_settled (h key List.mem_cons_self)]
      exact ih fun k hk => h k (List.mem_cons_of_mem _ hk)

theorem seeds_twice (keys : List String) (d : Dict String ℚ) :
    keys.foldl (seed default) (keys.foldl (seed default) d) = keys.foldl (seed default) d :=
  seeds_of_settled fun _ hk => settled_seeds hk d

end Seeds

theorem seedBlobs_eq (profile : TriageProfile) (d : Dict String ℚ) : seedBlobs profile d =
    (profile.viableBlobs.flatMap (fun blob => blob :: aliasesForClass blob)).foldl (seed triageBlobSeed) d := by
  rw [List.foldl_flatMap]
  rfl

theorem puts_same {keys : List String} {v : ℚ} {d : Dict String ℚ} (h : ∀ k ∈ keys, d.get? k = some v) :
    keys.foldl (fun d key => d.set key v) d = d := by
  induction keys with
  | nil => rfl
  | cons key keys ih =>
      rw [List.foldl_cons, Dict.set_same (h key List.mem_cons_self)]
      exact ih fun k hk => h k (List.mem_cons_of_mem _ hk)

theorem tenth_le : (1 / 10 : ℚ) ≤ maxWeight := by decide +kernel

def splitKeys (profile : TriageProfile) : List String :=
  if profile.splitMode = "" then [] else [splitTrait profile.splitMode]

theorem seedTraits_eq (profile : TriageProfile) (d : Dict String ℚ) : seedTraits profile d =
    (splitKeys profile).foldl (seed triagePosSeed)
      ((profile.viableFoolings.map viableTrait).foldl (seed triageFoolSeed)
        (((deadFoolingTokens profile).map foolTrait).foldl (fun d key => d.set key (1 / 10)) d)) := by
  rw [seedTraits, splitKeys]
  split <;> rfl

/-- The second seeding writes no new value: dead foolings stay dead, every other seeded
key keeps its weight. -/
theorem seedTraits_twice (profile : TriageProfile) (d : Dict String ℚ) :
    seedTraits profile (seedTraits profile d) = seedTraits profile d := by
  have hdead : ∀ k ∈ (deadFoolingTokens profile).map foolTrait, (seedTraits profile d).get? k = some (1 / 10) := by
    intro k hk
    rw [seedTraits_eq]
    have hput := Dict.get?_foldl_set (fun _ => (1 / 10 : ℚ)) ((deadFoolingTokens profile).map foolTrait) d k
    rw [if_pos hk] at hput
    exact seeds_kept (seeds_kept hput tenth_le _) tenth_le _
  have hviable : ∀ k ∈ profile.viableFoolings.map viableTrait, Settled (seedTraits profile d) k := by
    intro k hk
    rw [seedTraits_eq]
    exact settled_seeds_of_settled (settled_seeds hk _) _
  have hsplit : ∀ k ∈ splitKeys profile, Settled (seedTraits profile d) k := by
    intro k hk
    rw [seedTraits_eq]
    exact settled_seeds hk _
  rw [seedTraits_eq profile (seedTraits profile d), puts_same hdead, seeds_of_settled hviable,
    seeds_of_settled hsplit]

theorem seedFromTriage_twice (w : Weights) (profile : Option TriageProfile) :
    seedFromTriage (seedFromTriage w profile) profile = seedFromTriage w profile := by
  cases profile with
  | none => rfl
  | some profile =>
      have hblob : seedBlobs profile (seedBlobs profile w.blob) = seedBlobs profile w.blob := by
        simp only [seedBlobs_eq, seeds_twice]
      simp only [seedFromTriage, seeds_twice, hblob, seedTraits_twice]

theorem capHolds_set {d : Dict String ℚ} (h : CapHolds d) (key : String) {v : ℚ} (hv : v ≤ maxWeight) :
    CapHolds (d.set key v) := by
  intro k u hget
  rw [Dict.get?_set] at hget
  by_cases hk : k = key
  · rw [if_pos hk, Option.some.injEq] at hget
    exact hget ▸ hv
  · rw [if_neg hk] at hget
    exact h k u hget

theorem capHolds_foldl {f : Dict String ℚ → String → Dict String ℚ} (hf : ∀ d key, CapHolds d → CapHolds (f d key))
    (keys : List String) {d : Dict String ℚ} (h : CapHolds d) : CapHolds (keys.foldl f d) := by
  induction keys generalizing d with
  | nil => exact h
  | cons key keys ih => exact ih (hf d key h)

theorem capHolds_bump (default boost : ℚ) (d : Dict String ℚ) (key : String) (h : CapHolds d) :
    CapHolds (bump d default boost key) := capHolds_set h key (min_le_right _ _)

theorem capHolds_seed (default : ℚ) (d : Dict String ℚ) (key : String) (h : CapHolds d) :
    CapHolds (seed default d key) := capHolds_set h key (min_le_right _ _)

theorem capped_boost {w : Weights} (h : Capped w) (pass : Pass) : Capped (boost w pass) where
  family := capHolds_bump _ _ _ _ h.family
  blob := capHolds_foldl (capHolds_bump _ _) _ h.blob
  trait := capHolds_foldl (capHolds_bump _ _) _ h.trait

theorem capped_seed {w : Weights} (h : Capped w) (profile : Option TriageProfile) :
    Capped (seedFromTriage w profile) := by
  cases profile with
  | none => exact h
  | some profile =>
      refine ⟨capHolds_foldl (capHolds_seed _) _ h.family, ?_, ?_⟩
      · simp only [seedFromTriage, seedBlobs_eq]
        exact capHolds_foldl (capHolds_seed _) _ h.blob
      · simp only [seedFromTriage, seedTraits_eq]
        exact capHolds_foldl (capHolds_seed _) _ (capHolds_foldl (capHolds_seed _) _
          (capHolds_foldl (fun _ key hd => capHolds_set hd key tenth_le) _ h.trait))

theorem capped_change {b : Boosted} (h : Capped b.weights) (c : Change) : Capped (change b c).weights := by
  cases c with
  | pass pass => exact capped_boost h pass
  | provider strategyKey pass =>
      rw [change, boostProviderOnce]
      split
      · exact h
      · exact capped_boost h pass
  | triage profile => exact capped_seed h profile

theorem capped_changes (changes : List Change) {b : Boosted} (h : Capped b.weights) :
    Capped (changes.foldl change b).weights := by
  induction changes generalizing b with
  | nil => exact h
  | cons c changes ih => exact ih (capped_change h c)

/-- The entries that rows with a prefix stand for. -/
def rowsOf (pre : String) (rows : List (String × ℚ)) : List (String × ℚ) :=
  rows.filterMap (fun row =>
    if startsWith row.1.toList pre then some (String.ofList (row.1.toList.drop pre.toList.length), row.2) else none)

theorem startsWith_own (pre text : String) : startsWith (pre ++ text).toList pre = true := by
  rw [startsWith, String.toList_append, List.isPrefixOf_iff_prefix]
  exact List.prefix_append _ _

/-- Two prefixes with different first characters. -/
structure Apart (pre other : String) : Prop where
  heads : pre.toList.head? ≠ other.toList.head?
  pre : pre.toList ≠ []
  other : other.toList ≠ []

instance (pre other : String) : Decidable (Apart pre other) :=
  decidable_of_iff (pre.toList.head? ≠ other.toList.head? ∧ pre.toList ≠ [] ∧ other.toList ≠ [])
    ⟨fun h => ⟨h.1, h.2.1, h.2.2⟩, fun h => ⟨h.heads, h.pre, h.other⟩⟩

theorem startsWith_apart {text : List Char} {pre other : String} (h : startsWith text pre = true)
    (hapart : Apart pre other) : startsWith text other = false := by
  by_contra hboth
  rw [Bool.not_eq_false, startsWith, List.isPrefixOf_iff_prefix] at hboth
  rw [startsWith, List.isPrefixOf_iff_prefix] at h
  obtain ⟨rest, rfl⟩ := h
  obtain ⟨rest', hrest⟩ := hboth
  have hhead := congrArg List.head? hrest
  rw [List.head?_append_of_ne_nil _ hapart.other, List.head?_append_of_ne_nil _ hapart.pre] at hhead
  exact hapart.heads hhead.symm

theorem rowsOf_own (pre : String) (entries : List (String × ℚ)) :
    rowsOf pre (entries.map (fun e => (pre ++ e.1, e.2))) = entries := by
  rw [rowsOf, List.filterMap_map]
  refine (List.filterMap_congr fun e _ => ?_).trans List.filterMap_some
  rw [Function.comp_apply, if_pos (startsWith_own pre e.1), String.toList_append, List.drop_left,
    String.ofList_toList]

theorem rowsOf_apart {pre other : String} (h : Apart other pre) (entries : List (String × ℚ)) :
    rowsOf pre (entries.map (fun e => (other ++ e.1, e.2))) = [] := by
  rw [rowsOf, List.filterMap_map]
  refine List.filterMap_eq_nil_iff.mpr fun e _ => ?_
  rw [Function.comp_apply, startsWith_apart (startsWith_own other e.1) h, if_neg Bool.false_ne_true]

def assign (d : Dict String ℚ) (e : String × ℚ) : Dict String ℚ := d.set e.1 e.2

theorem fromRow_family (w : Weights) (row : String × ℚ) :
    (fromRow w row).family = (rowsOf "family:" [row]).foldl assign w.family := by
  rw [fromRow, rowsOf, List.filterMap_cons, List.filterMap_nil]
  by_cases hf : startsWith row.1.toList "family:" = true
  · simp only [if_pos hf]
    rfl
  · simp only [if_neg hf]
    split <;> [rfl; skip]
    split <;> rfl

theorem fromRow_blob (w : Weights) (row : String × ℚ) :
    (fromRow w row).blob = (rowsOf "blob:" [row]).foldl assign w.blob := by
  rw [fromRow, rowsOf, List.filterMap_cons, List.filterMap_nil]
  by_cases hf : startsWith row.1.toList "family:" = true
  · have hb := startsWith_apart hf (by decide : Apart "family:" "blob:")
    simp only [if_pos hf, hb, if_neg Bool.false_ne_true]
    rfl
  · simp only [if_neg hf]
    by_cases hb : startsWith row.1.toList "blob:" = true
    · simp only [if_pos hb]
      rfl
    · simp only [if_neg hb]
      split <;> rfl

theorem fromRow_trait (w : Weights) (row : String × ℚ) :
    (fromRow w row).trait = (rowsOf "trait:" [row]).foldl assign w.trait := by
  rw [fromRow, rowsOf, List.filterMap_cons, List.filterMap_nil]
  by_cases ht : startsWith row.1.toList "trait:" = true
  · have hf := startsWith_apart ht (by decide : Apart "trait:" "family:")
    have hb := startsWith_apart ht (by decide : Apart "trait:" "blob:")
    simp only [hf, hb, if_pos ht, if_neg Bool.false_ne_true]
    rfl
  · simp only [if_neg ht]
    split <;> [rfl; skip]
    split <;> rfl

theorem rowsOf_append (pre : String) (rows rows' : List (String × ℚ)) :
    rowsOf pre (rows ++ rows') = rowsOf pre rows ++ rowsOf pre rows' := List.filterMap_append

theorem fromRows_maps (rows : List (String × ℚ)) (w : Weights) :
    (rows.foldl fromRow w).family = (rowsOf "family:" rows).foldl assign w.family ∧
      (rows.foldl fromRow w).blob = (rowsOf "blob:" rows).foldl assign w.blob ∧
      (rows.foldl fromRow w).trait = (rowsOf "trait:" rows).foldl assign w.trait := by
  induction rows generalizing w with
  | nil => exact ⟨rfl, rfl, rfl⟩
  | cons row rows ih =>
      obtain ⟨hfamily, hblob, htrait⟩ := ih (fromRow w row)
      have hcons : row :: rows = [row] ++ rows := rfl
      refine ⟨?_, ?_, ?_⟩
      · rw [List.foldl_cons, hfamily, fromRow_family, hcons, rowsOf_append, List.foldl_append]
      · rw [List.foldl_cons, hblob, fromRow_blob, hcons, rowsOf_append, List.foldl_append]
      · rw [List.foldl_cons, htrait, fromRow_trait, hcons, rowsOf_append, List.foldl_append]

theorem rowsOf_toRows (w : Weights) : rowsOf "family:" (toRows w) = w.family.entries ∧
    rowsOf "blob:" (toRows w) = w.blob.entries ∧ rowsOf "trait:" (toRows w) = w.trait.entries := by
  simp only [toRows, rowsOf_append, rowsOf_own]
  refine ⟨?_, ?_, ?_⟩
  · rw [rowsOf_apart (by decide), rowsOf_apart (by decide), List.append_nil, List.append_nil]
  · rw [rowsOf_apart (by decide), rowsOf_apart (by decide), List.append_nil, List.nil_append]
  · rw [rowsOf_apart (by decide), rowsOf_apart (by decide), List.nil_append, List.nil_append]

/-- Rows whose keys are distinct rebuild the dictionary in any order. -/
theorem get?_assign_perm {es : List (String × ℚ)} {d : Dict String ℚ} (h : es.Perm d.entries) (k : String) :
    (es.foldl assign .empty).get? k = d.get? k := by
  have hnodup : (es.map Prod.fst).Nodup := (h.map Prod.fst).nodup_iff.mpr d.nodup
  apply Option.ext
  intro v
  rw [Dict.get?_eq_some_iff d, ← h.mem_iff]
  refine (Dict.get?_foldl_entries hnodup .empty k v).trans ⟨?_, Or.inl⟩
  rintro (hm | ⟨_, hnone⟩)
  · exact hm
  · exact absurd hnone (by rw [Dict.get?_empty]; exact Option.some_ne_none v |>.symm)

theorem rows_trip {w : Weights} {rows : List (String × ℚ)} (h : rows.Perm (toRows w)) : SameMaps (fromRows rows) w := by
  obtain ⟨hfamily, hblob, htrait⟩ := fromRows_maps rows {}
  obtain ⟨hfrows, hbrows, htrows⟩ := rowsOf_toRows w
  have hperm : ∀ pre, (rowsOf pre rows).Perm (rowsOf pre (toRows w)) := fun pre => h.filterMap _
  refine ⟨fun k => ?_, fun k => ?_, fun k => ?_⟩
  · rw [fromRows, hfamily]
    exact get?_assign_perm (hfrows ▸ hperm _) k
  · rw [fromRows, hblob]
    exact get?_assign_perm (hbrows ▸ hperm _) k
  · rw [fromRows, htrait]
    exact get?_assign_perm (htrows ▸ hperm _) k

/-- The order of passes does not matter, triage seeds once, the cap holds through every
sequence of changes, and the rows in any order restore the maps. -/
theorem weights_settle :
    (∀ (w : Weights) (passes passes' : List Pass), passes.Perm passes' →
      SameMaps (passes.foldl boost w) (passes'.foldl boost w)) ∧
    (∀ (w : Weights) (profile : Option TriageProfile),
      seedFromTriage (seedFromTriage w profile) profile = seedFromTriage w profile) ∧
    (∀ (b : Boosted) (changes : List Change), Capped b.weights → Capped (changes.foldl change b).weights) ∧
    ∀ (w : Weights) (rows : List (String × ℚ)), rows.Perm (toRows w) → SameMaps (fromRows rows) w :=
  ⟨fun w _ _ h => boosts_perm h w, seedFromTriage_twice, fun _ changes h => capped_changes changes h,
    fun _ _ h => rows_trip h⟩

def fakePass : Pass := ⟨"fake", ["stun", "stun"], ["r6"]⟩

def splitPass : Pass := ⟨"multisplit", ["stun"], ["pos:1", "r6"]⟩

/-- Keys that look like a row of another map come back in their own. -/
def namesake : Weights where
  family := Dict.empty.set "blob:stun" 3
  blob := Dict.empty.set "stun" 2
  trait := (Dict.empty.set "family:fake" 1).set "r6" 64

theorem weights_settle_namesake :
    SameMaps ([fakePass, splitPass].foldl boost namesake) ([splitPass, fakePass].foldl boost namesake) ∧
      Capped ([Change.pass fakePass, .provider "fake:ttl=3" fakePass, .triage none].foldl change ⟨{}, ∅⟩).weights ∧
      SameMaps (fromRows (toRows namesake).reverse) namesake :=
  ⟨weights_settle.1 _ _ _ (List.Perm.swap _ _ _),
    weights_settle.2.2.1 _ _ ⟨fun _ _ h => absurd h (Option.some_ne_none _).symm,
      fun _ _ h => absurd h (Option.some_ne_none _).symm, fun _ _ h => absurd h (Option.some_ne_none _).symm⟩,
    weights_settle.2.2.2 _ _ (List.reverse_perm _)⟩

end Blockchecks.WeightLaws
