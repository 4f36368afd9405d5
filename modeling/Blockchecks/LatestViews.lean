import Blockchecks.StoreViews

namespace Blockchecks.LatestViews

open RunStore RunLog StoreViews

variable {db : Db} {name d : String} {p : TcpRow × Strategy}

section counts

variable {α : Type} [DecidableEq α]

theorem sum_eq_count (a : α) (keys : List α) :
    (keys.map (fun k => if a = k then 1 else 0)).sum = keys.count a := by
  induction keys with
  | nil => rfl
  | cons k keys ih =>
      rw [List.map_cons, List.sum_cons, ih, List.count_cons, Nat.add_comm]
      by_cases h : a = k
      · rw [if_pos h, if_pos (beq_iff_eq.mpr h.symm)]
      · rw [if_neg h, if_neg (fun heq => h (beq_iff_eq.mp heq).symm)]

/-- Counting by keys counts everything, once. -/
theorem sum_counts {keys : List α} (hnodup : keys.Nodup) (xs : List α) (hmem : ∀ x ∈ xs, x ∈ keys) :
    (keys.map (fun k => xs.count k)).sum = xs.length := by
  induction xs with
  | nil => simp
  | cons x xs ih =>
      have hsplit : keys.map (fun k => (x :: xs).count k) =
          keys.map (fun k => xs.count k + if x = k then 1 else 0) := by
        refine List.map_congr_left (fun k _ => ?_)
        rw [List.count_cons]
        simp only [beq_iff_eq]
      rw [hsplit, List.sum_map_add, ih (fun y hy => hmem y (List.mem_cons_of_mem x hy)), sum_eq_count,
        List.count_eq_one_of_mem hnodup (hmem x List.mem_cons_self), List.length_cons]

end counts

section working

/-- The latest rows that work, on which all the views are views. -/
def workingRows (db : Db) : List (TcpRow × Strategy) :=
  (db.latestRows "tcp" anyRun).filter (fun p => p.1.columns.isWorking)

/-- The working pairs of a strategy and a domain. -/
def workingPairs (db : Db) : List (String × String) := (workingRows db).map Db.keyOf

theorem latestRows_keys (db : Db) : ((db.latestRows "tcp" anyRun).map Db.keyOf).Nodup := by
  have hjoined : db.joined.Nodup := by
    have hids : (db.joined.map (fun p => p.1.id)).Nodup := by
      have hmap : db.joined.map (fun p => p.1.id) = db.tcp.map TcpRow.id := by
        rw [← joined_rows db, List.map_map]
        rfl
      rw [hmap, List.Nodup, List.pairwise_map]
      exact db.rowIds.imp Nat.ne_of_lt
    exact hids.of_map _
  refine List.Nodup.map_on ?_ (hjoined.filter _)
  rintro ⟨t, s⟩ hp ⟨t', s'⟩ hp' hkey
  obtain ⟨_, hlast⟩ := mem_latestRows.mp hp
  obtain ⟨_, hlast'⟩ := mem_latestRows.mp hp'
  have hkeys : (s.name, t.columns.domain) = (s'.name, t'.columns.domain) := hkey
  rw [← hkeys, hlast] at hlast'
  exact Option.some.inj hlast'

theorem workingPairs_nodup (db : Db) : (workingPairs db).Nodup :=
  (latestRows_keys db).sublist (List.filter_sublist.map _)

theorem mem_workingPairs : (name, d) ∈ workingPairs db ↔ ∃ p ∈ workingRows db, p.2.name = name ∧ p.1.columns.domain = d := by
  simp only [workingPairs, List.mem_map, Db.keyOf, Prod.mk.injEq]

theorem mem_getWorkingTcp : name ∈ db.getWorkingTcp d ↔ (name, d) ∈ workingPairs db := by
  simp only [mem_workingPairs, Db.getWorkingTcp, Db.getWorkingProto, Db.getWorkingProtoDetails, workingRows,
    List.map_map, List.mem_map, List.mem_filter, Function.comp_apply, decide_eq_true_eq]
  constructor
  · rintro ⟨p, ⟨hp, hdomain, hworks⟩, hname⟩
    exact ⟨p, ⟨hp, hworks⟩, hname, hdomain⟩
  · rintro ⟨p, ⟨hp, hworks⟩, hname, hdomain⟩
    exact ⟨p, ⟨hp, hdomain, hworks⟩, hname⟩

end working

/-- Of rows with keys of their own those of one name have domains of their own. -/
theorem domains_nodup {rows : List (TcpRow × Strategy)} (hkeys : (rows.map Db.keyOf).Nodup) (name : String) :
    ((rows.filter (fun p => p.2.name = name)).map (fun p => p.1.columns.domain)).Nodup := by
  refine List.Nodup.of_map (fun d => (name, d)) ?_
  rw [List.map_map]
  have hmap : (rows.filter (fun p => decide (p.2.name = name))).map
        ((fun d => (name, d)) ∘ fun p => p.1.columns.domain) =
      (rows.filter (fun p => decide (p.2.name = name))).map Db.keyOf := by
    refine List.map_congr_left (fun p hp => ?_)
    have hname := of_decide_eq_true (List.mem_filter.mp hp).2
    exact Prod.ext hname.symm rfl
  rw [hmap]
  exact hkeys.sublist (List.filter_sublist.map _)

section coverage

theorem coverage_domains (db : Db) (name : String) :
    (coverageScore db name).domains =
      ((workingRows db).filter (fun p => p.2.name = name)).map (fun p => p.1.columns.domain) := by
  have hrows : db.joined.filter (fun p => p.2.name = name ∧ p.2.proto = "tcp" ∧
        p.1.columns.isWorking = true ∧ some p.1.id = db.latestId anyRun p.1) =
      (workingRows db).filter (fun p => p.2.name = name) := by
    rw [workingRows, Db.latestRows, List.filter_filter, List.filter_filter]
    refine List.filter_congr (fun p _ => ?_)
    rw [Bool.eq_iff_iff]
    simp only [decide_eq_true_eq, Bool.and_eq_true, anyRun]
    tauto
  rw [coverageScore, hrows]
  split
  next hnil => rw [hnil]; rfl
  next => rfl

theorem coverage_passed (db : Db) (name : String) :
    (coverageScore db name).domainsPassed = (coverageScore db name).domains.length := by
  rw [coverageScore]
  split
  · rfl
  · exact (List.length_map _).symm

theorem mem_coverage : d ∈ (coverageScore db name).domains ↔ (name, d) ∈ workingPairs db := by
  rw [coverage_domains, mem_workingPairs]
  simp only [List.mem_map, List.mem_filter, decide_eq_true_eq]
  constructor
  · rintro ⟨p, ⟨hp, hname⟩, hdomain⟩
    exact ⟨p, hp, hname, hdomain⟩
  · rintro ⟨p, hp, hname, hdomain⟩
    exact ⟨p, ⟨hp, hname⟩, hdomain⟩

theorem coverage_nodup (db : Db) (name : String) : (coverageScore db name).domains.Nodup := by
  rw [coverage_domains]
  exact domains_nodup (workingPairs_nodup db) name

theorem length_filter_name (rows : List (TcpRow × Strategy)) (name : String) :
    (rows.filter (fun p => p.2.name = name)).length = (rows.map (fun p => p.2.name)).count name := by
  rw [List.count, List.countP_map, List.countP_eq_length_filter]
  congr 1

theorem coverage_length (db : Db) (name : String) :
    (coverageScore db name).domains.length = ((workingRows db).map (fun p => p.2.name)).count name := by
  rw [coverage_domains, List.length_map, length_filter_name]

/-- A group counts the rows of its name. -/
theorem mem_groupByName {rows : List (TcpRow × Strategy)} (hkeys : (rows.map Db.keyOf).Nodup)
    {row : CoverageRow} (h : row ∈ groupByName rows) :
    row.strategy ∈ rows.map (fun p => p.2.name) ∧
      row.domainsPassed = (rows.map (fun p => p.2.name)).count row.strategy := by
  obtain ⟨name, hname, rfl⟩ := List.mem_map.mp h
  refine ⟨List.mem_dedup.mp hname, ?_⟩
  have hdedup := List.dedup_eq_self.mpr (domains_nodup hkeys name)
  dsimp only
  rw [hdedup, List.length_map, length_filter_name]

theorem exists_group {rows : List (TcpRow × Strategy)} (hname : name ∈ rows.map (fun p => p.2.name)) :
    ∃ row ∈ groupByName rows, row.strategy = name :=
  ⟨_, List.mem_map_of_mem (List.mem_dedup.mpr hname), rfl⟩

theorem groupByName_sum {rows : List (TcpRow × Strategy)} (hkeys : (rows.map Db.keyOf).Nodup) :
    ((groupByName rows).map CoverageRow.domainsPassed).sum = rows.length := by
  have hmap : (groupByName rows).map CoverageRow.domainsPassed =
      (rows.map (fun p => p.2.name)).dedup.map (fun k => (rows.map (fun p => p.2.name)).count k) := by
    rw [groupByName, List.map_map]
    refine List.map_congr_left (fun name _ => ?_)
    rw [Function.comp_apply]
    dsimp only
    rw [List.dedup_eq_self.mpr (domains_nodup hkeys name), List.length_map, length_filter_name]
  rw [hmap, sum_counts (List.nodup_dedup _) _ (fun _ h => List.mem_dedup.mpr h), List.length_map]

theorem groups_pass {rows : List (TcpRow × Strategy)} (hkeys : (rows.map Db.keyOf).Nodup) :
    (groupByName rows).filter (fun row => 0 < row.domainsPassed) = groupByName rows := by
  refine List.filter_eq_self.mpr (fun row hrow => decide_eq_true ?_)
  obtain ⟨hname, hcount⟩ := mem_groupByName hkeys hrow
  rw [hcount]
  exact List.count_pos_iff.mpr hname

theorem best_perm (db : Db) : (getBestByCoverage db none).Perm (groupByName (workingRows db)) := by
  rw [getBestByCoverage, limited]
  refine (List.mergeSort_perm _ _).trans (List.Perm.of_eq ?_)
  exact groups_pass (workingPairs_nodup db)

theorem best_iff {n : Nat} : (∃ row ∈ getBestByCoverage db none, row.strategy = name ∧ row.domainsPassed = n) ↔
    n = (coverageScore db name).domains.length ∧ 0 < n := by
  simp only [(best_perm db).mem_iff, coverage_length]
  constructor
  · rintro ⟨row, hrow, rfl, rfl⟩
    obtain ⟨hname, hcount⟩ := mem_groupByName (workingPairs_nodup db) hrow
    refine ⟨hcount, ?_⟩
    rw [hcount]
    exact List.count_pos_iff.mpr hname
  · rintro ⟨hn, hpos⟩
    rw [hn] at hpos
    obtain ⟨row, hrow, hname⟩ := exists_group (List.count_pos_iff.mp hpos)
    refine ⟨row, hrow, hname, ?_⟩
    rw [(mem_groupByName (workingPairs_nodup db) hrow).2, hname, hn]

end coverage

section config

theorem getStrategyConfig_of_mem {s : Strategy} (hs : s ∈ db.strategies) :
    getStrategyConfig db s.name s.proto = some s.configPath := by
  rw [getStrategyConfig]
  cases hfind : db.strategies.find? (fun s' => s'.name = s.name ∧ s'.proto = s.proto) with
  | none => exact absurd (List.find?_eq_none.mp hfind s hs) (by simp)
  | some found =>
      have hfound := List.find?_some hfind
      rw [decide_eq_true_eq] at hfound
      have hkey : found.key = s.key := Prod.ext hfound.1 hfound.2
      rw [List.inj_on_of_nodup_map db.strategyKeys (List.mem_of_find?_eq_some hfind) hs hkey]
      rfl

theorem getStrategyConfig_iff {proto text : String} : getStrategyConfig db name proto = some text ↔
    ∃ s ∈ db.strategies, s.name = name ∧ s.proto = proto ∧ s.configPath = text := by
  constructor
  · intro h
    obtain ⟨s, hfind, rfl⟩ := Option.map_eq_some_iff.mp h
    have hfound := List.find?_some hfind
    rw [decide_eq_true_eq] at hfound
    exact ⟨s, List.mem_of_find?_eq_some hfind, hfound.1, hfound.2, rfl⟩
  · rintro ⟨s, hs, rfl, rfl, rfl⟩
    exact getStrategyConfig_of_mem hs

end config

section common

/-- Distinct members of a list are as many as the list exactly if they are all. -/
theorem length_eq_iff_subset {α : Type} {xs ys : List α} (hxs : xs.Nodup) (hys : ys.Nodup) (hsub : xs ⊆ ys) :
    xs.length = ys.length ↔ ys ⊆ xs := by
  constructor
  · intro hlength
    exact ((hxs.subperm hsub).perm_of_length_le hlength.ge).symm.subset
  · intro hback
    exact Nat.le_antisymm (hxs.subperm hsub).length_le (hys.subperm hback).length_le

def rowsOn (db : Db) (domains : List String) : List (TcpRow × Strategy) :=
  (workingRows db).filter (fun p => p.1.columns.domain ∈ domains)

theorem rowsOn_keys (db : Db) (domains : List String) : ((rowsOn db domains).map Db.keyOf).Nodup :=
  (workingPairs_nodup db).sublist (List.filter_sublist.map _)

theorem mem_common {domains : List String} (hlength : 2 ≤ domains.length) {row : CoverageRow} :
    row ∈ getCommonTcp db domains none ↔
      row ∈ groupByName (rowsOn db domains) ∧ row.domainsPassed = domains.length := by
  have hrows : (db.latestRows "tcp" anyRun).filter
      (fun p => p.1.columns.domain ∈ domains ∧ p.1.columns.isWorking = true) = rowsOn db domains := by
    rw [rowsOn, workingRows, List.filter_filter]
    refine List.filter_congr (fun p _ => ?_)
    rw [Bool.decide_and, Bool.decide_eq_true]
  rw [getCommonTcp, if_neg (Nat.not_lt.mpr hlength), hrows, limited, (List.mergeSort_perm _ _).mem_iff,
    List.mem_filter, decide_eq_true_eq]

/-- The domains of a list on which a strategy works. -/
def covered (db : Db) (domains : List String) (name : String) : List String :=
  ((rowsOn db domains).filter (fun p => p.2.name = name)).map (fun p => p.1.columns.domain)

theorem covered_nodup (db : Db) (domains : List String) (name : String) : (covered db domains name).Nodup :=
  domains_nodup (rowsOn_keys db domains) name

theorem mem_covered {domains : List String} :
    d ∈ covered db domains name ↔ d ∈ domains ∧ (name, d) ∈ workingPairs db := by
  simp only [covered, rowsOn, List.mem_map, List.mem_filter, decide_eq_true_eq, mem_workingPairs]
  constructor
  · rintro ⟨p, ⟨⟨hp, hdomain⟩, hname⟩, rfl⟩
    exact ⟨hdomain, p, hp, hname, rfl⟩
  · rintro ⟨hdomain, p, hp, hname, rfl⟩
    exact ⟨p, ⟨⟨hp, hdomain⟩, hname⟩, rfl⟩

theorem group_passed {domains : List String} {row : CoverageRow} (hrow : row ∈ groupByName (rowsOn db domains)) :
    row.domainsPassed = (covered db domains row.strategy).length := by
  rw [(mem_groupByName (rowsOn_keys db domains) hrow).2, covered, List.length_map, length_filter_name]

theorem common_iff {domains : List String} (hnodup : domains.Nodup) (hlength : 2 ≤ domains.length) :
    (∃ row ∈ getCommonTcp db domains none, row.strategy = name) ↔ ∀ d ∈ domains, name ∈ db.getWorkingTcp d := by
  have hall : (covered db domains name).length = domains.length ↔ ∀ d ∈ domains, name ∈ db.getWorkingTcp d := by
    rw [length_eq_iff_subset (covered_nodup db domains name) hnodup (fun d hd => (mem_covered.mp hd).1)]
    refine forall₂_congr (fun d hd => ?_)
    rw [mem_covered, and_iff_right hd, mem_getWorkingTcp]
  rw [← hall]
  simp only [mem_common hlength]
  constructor
  · rintro ⟨row, ⟨hrow, hpassed⟩, rfl⟩
    rw [← group_passed hrow, hpassed]
  · intro hlengths
    have hcount : 0 < ((rowsOn db domains).map (fun p => p.2.name)).count name := by
      rw [← length_filter_name, ← List.length_map (fun p => p.1.columns.domain)]
      exact hlengths ▸ (by omega)
    obtain ⟨row, hrow, rfl⟩ := exists_group (List.count_pos_iff.mp hcount)
    exact ⟨row, ⟨hrow, (group_passed hrow).trans hlengths⟩, rfl⟩

end common

section totals

theorem countTcpPasses_none (db : Db) : countTcpPasses db none = (workingRows db).length :=
  List.countP_eq_length_filter

theorem countTcpPasses_some {d : String} (hd : d ≠ "") :
    countTcpPasses db (some d) = ((workingRows db).map (fun p => p.1.columns.domain)).count d := by
  rw [countTcpPasses, if_neg hd, domainPassStats, List.count, List.countP_map, List.countP_filter, workingRows,
    List.countP_filter, Db.latestRows, List.countP_filter]
  refine List.countP_congr (fun p _ => ?_)
  simp only [Function.comp_apply, Bool.and_eq_true, decide_eq_true_eq, List.mem_singleton, beq_iff_eq, anyRun]
  tauto

theorem workingRows_domains (db : Db) :
    ∀ d ∈ (workingRows db).map (fun p => p.1.columns.domain), d ∈ (db.tcp.map (·.columns.domain)).dedup := by
  intro d hd
  obtain ⟨p, hp, rfl⟩ := List.mem_map.mp hd
  have hjoined : p ∈ db.joined := (List.mem_filter.mp (List.mem_filter.mp hp).1).1
  have hrow : p.1 ∈ db.tcp := (mem_joined.mp hjoined).1
  exact List.mem_dedup.mpr (List.mem_map_of_mem hrow)

theorem total_eq_sum_domains (db : Db) (hdomains : ∀ t ∈ db.tcp, t.columns.domain ≠ "") :
    countTcpPasses db none =
      ((db.tcp.map (·.columns.domain)).dedup.map (fun d => countTcpPasses db (some d))).sum := by
  have hmap : (db.tcp.map (·.columns.domain)).dedup.map (fun d => countTcpPasses db (some d)) =
      (db.tcp.map (·.columns.domain)).dedup.map
        (fun d => ((workingRows db).map (fun p => p.1.columns.domain)).count d) := by
    refine List.map_congr_left (fun d hd => countTcpPasses_some ?_)
    obtain ⟨t, ht, rfl⟩ := List.mem_map.mp (List.mem_dedup.mp hd)
    exact hdomains t ht
  rw [hmap, sum_counts (List.nodup_dedup _) _ (workingRows_domains db), List.length_map, countTcpPasses_none]

theorem total_eq_sum_names (db : Db) :
    countTcpPasses db none = ((getBestByCoverage db none).map CoverageRow.domainsPassed).sum := by
  rw [countTcpPasses_none, ((best_perm db).map _).sum_eq, groupByName_sum (workingPairs_nodup db)]

end totals

end Blockchecks.LatestViews
