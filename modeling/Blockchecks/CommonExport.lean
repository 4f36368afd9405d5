import Blockchecks.DomainLoader
import Blockchecks.ExportFilter
import Blockchecks.LatestViews

namespace Blockchecks.CommonExport

open StrategyText DomainLoader ExportFilter RunStore RunLog StoreViews LatestViews

section files

variable (confText : List Char → Option (List Char)) (db : Db)

def resolveExportStrategy (config : Option String) (name : String) : Option String :=
  let text := if (config.getD "") ≠ "" then config.getD "" else if ':' ∈ name.toList then name else ""
  if text = "" then none
  else ((filterExportStrategies confText [text]).head?).filter (fun kept => kept ≠ "")

/-- A selected strategy, with the text that is exported for it. -/
def resolveRow (name : String) : Option (String × String) :=
  (resolveExportStrategy confText (getStrategyConfig db name "tcp") name).map (fun text => (name, text))

/-- The TCP part of collect_export_strategies. -/
def collectExportStrategies (domain : String) (limit : Nat) (domains : List String) (commonOnly : Bool) :
    List (String × String) :=
  if commonOnly ∧ 1 < domains.length then
    (getCommonTcp db domains (some limit)).filterMap (fun row => resolveRow confText db row.strategy)
  else
    let covered := getBestByCoverage db (some limit)
    if covered ≠ [] then covered.filterMap (fun row => resolveRow confText db row.strategy)
    else
      let best := (db.getBestTcp domain limit).filterMap (fun row => resolveRow confText db row.strategy)
      if best ≠ [] then best
      else ((db.getWorkingTcp domain).take limit).filterMap (resolveRow confText db)

/-- What export_configs selects for a domains file that exists. -/
def exportConfigs (domain : String) (limit : Nat) (domainsFile : List Char) (commonOnly : Bool) :
    List (String × String) :=
  collectExportStrategies confText db domain limit (readDomainLines domainsFile) commonOnly

end files

variable {confText : List Char → Option (List Char)} {db : Db} {domains : List String}

theorem groupByName_length {rows : List (TcpRow × Strategy)} (hrows : ∀ p ∈ rows, p.2 ∈ db.strategies) :
    (groupByName rows).length ≤ db.strategies.length := by
  rw [groupByName, List.length_map, ← @List.length_map _ _ db.strategies Strategy.name]
  refine (List.Nodup.subperm (List.nodup_dedup _) (fun name hname => ?_)).length_le
  obtain ⟨p, hp, rfl⟩ := List.mem_map.mp (List.mem_dedup.mp hname)
  exact List.mem_map_of_mem (hrows p hp)

theorem workingRows_strategies {p : TcpRow × Strategy} (hp : p ∈ workingRows db) :
    p.1 ∈ db.tcp ∧ p.2 ∈ db.strategies := by
  have hjoined := (List.mem_filter.mp (List.mem_filter.mp hp).1).1
  exact ⟨(mem_joined.mp hjoined).1, (mem_joined.mp hjoined).2.1⟩

/-- No selection has more rows than there are strategies. -/
theorem common_unlimited {limit : Nat} (hlimit : db.strategies.length ≤ limit) (domains : List String) :
    getCommonTcp db domains (some limit) = getCommonTcp db domains none := by
  rw [getCommonTcp, getCommonTcp]
  split
  · rfl
  · refine List.take_of_length_le ?_
    rw [List.length_mergeSort]
    refine (List.length_filter_le _ _).trans ((groupByName_length ?_).trans hlimit)
    intro p hp
    obtain ⟨hlatest, _⟩ := List.mem_filter.mp hp
    exact (mem_joined.mp (List.mem_filter.mp hlatest).1).2.1

/-- If the domains that rows can have are not those of the list, one by one,
nothing is common. -/
theorem common_empty {run : List String} (hrows : ∀ t ∈ db.tcp, t.columns.domain ∈ run)
    (hlength : run.length ≤ domains.length) (htwo : 2 ≤ domains.length) (hperm : ¬ domains.Perm run) :
    getCommonTcp db domains none = [] := by
  refine List.eq_nil_iff_forall_not_mem.mpr (fun row hrow => hperm ?_)
  obtain ⟨hgroup, hpassed⟩ := (mem_common htwo).mp hrow
  rw [group_passed hgroup] at hpassed
  have hnodup := covered_nodup db domains row.strategy
  have hdomains : covered db domains row.strategy ⊆ domains := fun d hd => (mem_covered.mp hd).1
  have hrun : covered db domains row.strategy ⊆ run := by
    intro d hd
    obtain ⟨p, hp, _, rfl⟩ := mem_workingPairs.mp (mem_covered.mp hd).2
    exact hrows p.1 (workingRows_strategies hp).1
  have hall := (hnodup.subperm hdomains).perm_of_length_le hpassed.ge
  exact hall.symm.trans ((hnodup.subperm hrun).perm_of_length_le (hpassed ▸ hlength))

/-- Exactly the strategies that work on all domains of the run are selected,
each with the text that the export filter leaves. -/
def MatchesRun (confText : List Char → Option (List Char)) (db : Db) (run : List String)
    (selected : List (String × String)) : Prop :=
  ∀ name text, (name, text) ∈ selected ↔
    (∀ d ∈ run, name ∈ db.getWorkingTcp d) ∧
      resolveExportStrategy confText (getStrategyConfig db name "tcp") name = some text

/-- Some strategy that works on all domains of the run could be exported. -/
def SomethingCommon (confText : List Char → Option (List Char)) (db : Db) (run : List String) : Prop :=
  ∃ name text, (∀ d ∈ run, name ∈ db.getWorkingTcp d) ∧
    resolveExportStrategy confText (getStrategyConfig db name "tcp") name = some text

/-- The selection matches the run exactly if the lines of the file are its
domains, in some order, or nothing is common to them. -/
theorem common_export_iff (confText : List Char → Option (List Char)) (db : Db) (domain : String) (limit : Nat)
    (domainsFile : List Char) (denylist : List DenylistEntry) (allowUnsafe : Bool)
    (htwo : 2 ≤ (loadRunDomains domainsFile denylist allowUnsafe).length)
    (hrows : ∀ t ∈ db.tcp, t.columns.domain ∈ loadRunDomains domainsFile denylist allowUnsafe)
    (hlimit : db.strategies.length ≤ limit) :
    MatchesRun confText db (loadRunDomains domainsFile denylist allowUnsafe)
        (exportConfigs confText db domain limit domainsFile true) ↔
      (readDomainLines domainsFile).Perm (loadRunDomains domainsFile denylist allowUnsafe) ∨
        ¬ SomethingCommon confText db (loadRunDomains domainsFile denylist allowUnsafe) := by
  obtain ⟨hnodup, hlength⟩ := loadRunDomains_spec domainsFile denylist allowUnsafe
  let run := loadRunDomains domainsFile denylist allowUnsafe
  have hlines : 2 ≤ (readDomainLines domainsFile).length := htwo.trans hlength
  have hselected : exportConfigs confText db domain limit domainsFile true =
      (getCommonTcp db (readDomainLines domainsFile) none).filterMap
        (fun row => resolveRow confText db row.strategy) := by
    rw [exportConfigs, collectExportStrategies, if_pos ⟨rfl, hlines⟩, common_unlimited hlimit]
  have hmem (name text : String) : (name, text) ∈ exportConfigs confText db domain limit domainsFile true ↔
      (∃ row ∈ getCommonTcp db (readDomainLines domainsFile) none, row.strategy = name) ∧
        resolveExportStrategy confText (getStrategyConfig db name "tcp") name = some text := by
    rw [hselected, List.mem_filterMap]
    constructor
    · rintro ⟨row, hrow, hresolve⟩
      obtain ⟨kept, hkept, heq⟩ := Option.map_eq_some_iff.mp hresolve
      obtain ⟨rfl, rfl⟩ := Prod.mk.inj heq
      exact ⟨⟨row, hrow, rfl⟩, hkept⟩
    · rintro ⟨⟨row, hrow, rfl⟩, hkept⟩
      exact ⟨row, hrow, Option.map_eq_some_iff.mpr ⟨text, hkept, rfl⟩⟩
  by_cases hperm : (readDomainLines domainsFile).Perm run
  · refine iff_of_true (fun name text => ?_) (Or.inl hperm)
    rw [hmem, common_iff (hperm.nodup_iff.mpr hnodup) hlines]
    simp only [hperm.mem_iff]
    rfl
  · have hempty := common_empty hrows hlength hlines hperm
    rw [or_iff_right hperm, hselected, hempty]
    constructor
    · rintro hmatches ⟨name, text, hcommon⟩
      exact absurd ((hmatches name text).mpr hcommon) List.not_mem_nil
    · intro hnone name text
      exact iff_of_false List.not_mem_nil (fun h => hnone ⟨name, text, h⟩)

def worksOn (domain : String) : TcpEntry := ⟨"s", "tcp", "fake:repeats=6", { domain, status := .throttled }⟩

def worksOnBoth : Db := (emptyDb.write 1 (worksOn "a.com")).write 1 (worksOn "b.com")

theorem plainFile_matches : MatchesRun (fun _ => none) worksOnBoth
    (loadRunDomains "a.com\nb.com\n".toList [] false)
    (exportConfigs (fun _ => none) worksOnBoth "a.com" 3 "a.com\nb.com\n".toList true) :=
  (common_export_iff (fun _ => none) worksOnBoth "a.com" 3 "a.com\nb.com\n".toList [] false
    (by decide +kernel) (by decide +kernel) (by decide +kernel)).mpr (Or.inl (by decide +kernel))

/-- One capital letter in the file. -/
theorem capitalFile_selects_nothing : ¬ MatchesRun (fun _ => none) worksOnBoth
    (loadRunDomains "A.com\nb.com\n".toList [] false)
    (exportConfigs (fun _ => none) worksOnBoth "a.com" 3 "A.com\nb.com\n".toList true) := by
  intro h
  have hrun : loadRunDomains "A.com\nb.com\n".toList [] false = ["a.com", "b.com"] := by decide +kernel
  have hempty : exportConfigs (fun _ => none) worksOnBoth "a.com" 3 "A.com\nb.com\n".toList true = [] := by
    decide +kernel
  have hcommon : ("s", "fake:repeats=6") ∈ ([] : List (String × String)) := by
    rw [← hempty]
    refine (h "s" "fake:repeats=6").mpr ?_
    rw [hrun]
    exact ⟨by decide +kernel, by decide +kernel⟩
  exact absurd hcommon List.not_mem_nil

end Blockchecks.CommonExport
