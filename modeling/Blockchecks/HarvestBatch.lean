import Blockchecks.ExportFilter
import Blockchecks.LatestViews
import Mathlib.Data.List.Sort
import Mathlib.Data.String.Basic

namespace Blockchecks.HarvestBatch

open StrategyText OrderedDict NfqwsConfig ExportConf ExportFilter RunStore RunLog StoreViews LatestViews

structure HarvestCandidate where
  strategy : String
  domains : List String
  coverage : Nat
  avgLatencyMs : ℚ
  attempts : Nat
  passRate : ℚ := 1
  confPath : Option String
  deriving DecidableEq

structure HarvestResult where
  candidates : List HarvestCandidate
  quarantinedExcluded : List String
  skippedUnresolved : Nat

def harvestRenames (strategy : String) : Renames :=
  ((extractBlobNames strategy).filter (fun name => name != safeBlobName name)).foldl
    (fun renames name => renames.set name (safeBlobName name)) .empty

section files

variable (confText : List Char → Option (List Char))

def harvestCore (text : List Char) : Option String :=
  if looksLikeConfPath text then
    ((filterExportStrategies confText ((luaDesyncCoresFromConf confText text).map
      (fun core => String.ofList core.text))).head?).filter (fun core => core ≠ "")
  else some (String.ofList text)

/-- The core that a config_path stands for, if it passes the export filter. -/
def resolveStrategyString (configPath : String) : Option String :=
  let text := strip configPath.toList
  if text = [] then none
  else (harvestCore confText text).bind (fun strategy =>
    (filterExportStrategies confText [applyBlobRenames strategy (harvestRenames strategy)]).head?)

variable (db : Db)

/-- ROW_NUMBER over the rows of a strategy and a domain, the last id first. -/
def rowNumber (proto : String) (p : TcpRow × Strategy) : Nat :=
  (db.joined.filter (fun q => q.2.proto = proto)).countP (fun q =>
    q.1.strategyId = p.1.strategyId ∧ q.1.columns.domain = p.1.columns.domain ∧ p.1.id ≤ q.1.id)

def harvestRows (proto : String) (statuses : List Status) (excluded : List String) : List (TcpRow × Strategy) :=
  (db.joined.filter (fun p => p.2.proto = proto)).filter (fun p => rowNumber db proto p = 1 ∧
    p.1.columns.status ∈ statuses ∧ p.1.columns.bridgeApplied = some true ∧ p.1.columns.domain ∉ excluded)

def candidateOf (rows : List (TcpRow × Strategy)) (s : Strategy) : Option HarvestCandidate :=
  let group := rows.filter (fun p => p.2.id = s.id)
  let domains := group.map (fun p => p.1.columns.domain)
  (resolveStrategyString confText s.configPath).map (fun strategy =>
    { strategy
      domains := domains.insertionSort (· ≤ ·)
      coverage := domains.length
      avgLatencyMs := round1 (avg (group.map (fun p => p.1.columns.latencyMs)))
      attempts := domains.length
      confPath := if looksLikeConfPath (strip s.configPath.toList) then some s.configPath else none })

/-- The parameter lists the quarantined domains. -/
def collectHarvestCandidates (proto : String) (top minDomains : Nat) (statuses : List Status)
    (quarantined : Option (List String)) : HarvestResult :=
  let statuses := if statuses = [] then [.pass] else statuses
  let rows := harvestRows db proto statuses (quarantined.getD [])
  let groups := (rows.map Prod.snd).dedup.filter
    (fun s => minDomains ≤ (rows.filter (fun p => p.2.id = s.id)).length)
  let found := groups.filterMap (candidateOf confText rows)
  { candidates := (found.mergeSort (fun a b => b.coverage < a.coverage ∨
      a.coverage = b.coverage ∧ a.avgLatencyMs ≤ b.avgLatencyMs)).take (max 1 top)
    quarantinedExcluded := (quarantined.getD []).insertionSort (· ≤ ·)
    skippedUnresolved := groups.length - found.length }

end files

variable {confText : List Char → Option (List Char)} {db : Db} {p : TcpRow × Strategy} {proto : String}

theorem last_id_le {P : TcpRow × Strategy → Bool} {q last : TcpRow × Strategy} (hq : q ∈ db.joined.filter P)
    (hlast : (db.joined.filter P).getLast? = some last) : q.1.id ≤ last.1.id := by
  have hids : (db.joined.filter P).Pairwise (fun a b => a.1.id < b.1.id) := by
    refine List.Pairwise.sublist List.filter_sublist ?_
    have hrows := db.rowIds
    rw [← joined_rows db, List.pairwise_map] at hrows
    exact hrows
  obtain ⟨ys, hys⟩ := List.getLast?_eq_some_iff.mp hlast
  rw [hys] at hids hq
  rcases List.mem_append.mp hq with hmem | hmem
  · exact Nat.le_of_lt ((List.pairwise_append.mp hids).2.2 q hmem last (List.mem_singleton_self last))
  · rw [List.mem_singleton.mp hmem]

/-- The first row of the ranking is the one that the other queries select. -/
theorem rowNumber_one (hp : p ∈ db.joined) (hproto : p.2.proto = proto) (hone : rowNumber db proto p = 1) :
    some p.1.id = db.latestId anyRun p.1 := by
  obtain ⟨t, s⟩ := p
  rw [latest_iff hp]
  have hself : (t, s) ∈ db.joined.filter (fun p => (loggedOf p).is s.proto anyRun (s.name, t.columns.domain)) :=
    List.mem_filter.mpr ⟨hp, Logged.is_iff.mpr ⟨rfl, rfl, rfl, rfl⟩⟩
  cases hlast : (db.joined.filter
      (fun p => (loggedOf p).is s.proto anyRun (s.name, t.columns.domain))).getLast? with
  | none =>
      rw [List.getLast?_eq_none_iff.mp hlast] at hself
      cases hself
  | some last =>
      obtain ⟨t', s'⟩ := last
      obtain ⟨hmem, his⟩ := List.mem_filter.mp (List.mem_of_getLast? hlast)
      obtain ⟨hproto', _, hname, hdomain⟩ := Logged.is_iff.mp his
      have hid : t'.strategyId = t.strategyId := (strategyId_eq_iff hp hmem).mpr ⟨hname, hproto'⟩
      have hle : t.id ≤ t'.id := last_id_le hself hlast
      rw [rowNumber, List.countP_eq_length_filter, List.length_eq_one_iff] at hone
      obtain ⟨only, honly⟩ := hone
      have hfirst : (t, s) ∈ [only] := by
        rw [← honly, List.mem_filter, List.mem_filter]
        exact ⟨⟨hp, decide_eq_true hproto⟩, decide_eq_true ⟨rfl, rfl, le_refl _⟩⟩
      have hsecond : (t', s') ∈ [only] := by
        rw [← honly, List.mem_filter, List.mem_filter]
        exact ⟨⟨hmem, decide_eq_true (hproto'.trans hproto)⟩, decide_eq_true ⟨hid, hdomain, hle⟩⟩
      rw [List.mem_singleton.mp hfirst, List.mem_singleton.mp hsecond]

theorem harvestRows_working {statuses : List Status} {excluded : List String}
    (hstatuses : ∀ status ∈ statuses, status.isWorking = true)
    (hp : p ∈ harvestRows db "tcp" statuses excluded) : p ∈ workingRows db := by
  obtain ⟨hrow, hkept⟩ := List.mem_filter.mp hp
  obtain ⟨hjoined, hproto⟩ := List.mem_filter.mp hrow
  obtain ⟨hone, hstatus, happlied, _⟩ := of_decide_eq_true hkept
  have hproto := of_decide_eq_true hproto
  refine List.mem_filter.mpr ⟨List.mem_filter.mpr ⟨hjoined, decide_eq_true ?_⟩, ?_⟩
  · exact ⟨hproto, rfl, rowNumber_one hjoined hproto hone⟩
  · exact TcpColumns.isWorking_iff.mpr ⟨hstatuses _ hstatus, Or.inr happlied⟩

/-- A candidate stands for a strategy of the store, and for domains that it
works on. -/
theorem candidate_working {top minDomains : Nat} {statuses : List Status} {quarantined : Option (List String)}
    (hstatuses : ∀ status ∈ statuses, status.isWorking = true) {c : HarvestCandidate} {d : String}
    (hc : c ∈ (collectHarvestCandidates confText db "tcp" top minDomains statuses quarantined).candidates)
    (hd : d ∈ c.domains) :
    ∃ name config, getStrategyConfig db name "tcp" = some config ∧
      resolveStrategyString confText config = some c.strategy ∧ (name, d) ∈ workingPairs db := by
  have hworking : ∀ status ∈ (if statuses = [] then [Status.pass] else statuses), status.isWorking = true := by
    split
    · intro status hstatus
      rw [List.mem_singleton.mp hstatus]
      rfl
    · exact hstatuses
  let rows := harvestRows db "tcp" (if statuses = [] then [Status.pass] else statuses) (quarantined.getD [])
  have hrows : ∀ p ∈ rows, p ∈ workingRows db := fun p hp => harvestRows_working hworking hp
  have hstrategy : ∀ p ∈ rows, p.2 ∈ db.strategies ∧ p.2.proto = "tcp" := by
    intro p hp
    obtain ⟨hrow, _⟩ := List.mem_filter.mp hp
    obtain ⟨hjoined, hproto⟩ := List.mem_filter.mp hrow
    exact ⟨(mem_joined.mp hjoined).2.1, of_decide_eq_true hproto⟩
  have hfound := (List.mergeSort_perm _ _).mem_iff.mp (List.mem_of_mem_take hc)
  obtain ⟨s, hs, hcandidate⟩ := List.mem_filterMap.mp hfound
  obtain ⟨q, hq, hqs⟩ := List.mem_map.mp (List.mem_dedup.mp (List.mem_filter.mp hs).1)
  obtain ⟨hsmem, hsproto⟩ := hstrategy q hq
  rw [hqs] at hsmem hsproto
  obtain ⟨strategy, hresolve, rfl⟩ := Option.map_eq_some_iff.mp hcandidate
  refine ⟨s.name, s.configPath, ?_, hresolve, ?_⟩
  · rw [← hsproto]
    exact getStrategyConfig_of_mem hsmem
  · obtain ⟨p, hp, rfl⟩ := List.mem_map.mp ((List.perm_insertionSort _ _).mem_iff.mp hd)
    obtain ⟨hprow, hid⟩ := List.mem_filter.mp hp
    have hps := List.inj_on_of_nodup_map db.strategyIds (hstrategy p hprow).1 hsmem (of_decide_eq_true hid)
    exact mem_workingPairs.mpr ⟨p, hrows p hprow, congrArg Strategy.name hps, rfl⟩

/-- All the views show one relation, which strategy works on which domain. The
count of an empty domain is the count of all. -/
theorem views_agree (confText : List Char → Option (List Char)) (db : Db) :
    (∀ name d, name ∈ db.getWorkingTcp d ↔ d ∈ (coverageScore db name).domains) ∧
      (∀ name n, (∃ row ∈ getBestByCoverage db none, row.strategy = name ∧ row.domainsPassed = n) ↔
        n = (coverageScore db name).domains.length ∧ 0 < n) ∧
      ((∀ t ∈ db.tcp, t.columns.domain ≠ "") → countTcpPasses db none =
        ((db.tcp.map (·.columns.domain)).dedup.map (fun d => countTcpPasses db (some d))).sum) ∧
      countTcpPasses db none = ((getBestByCoverage db none).map CoverageRow.domainsPassed).sum ∧
      (∀ domains : List String, domains.Nodup → 2 ≤ domains.length → ∀ name,
        (∃ row ∈ getCommonTcp db domains none, row.strategy = name) ↔
          ∀ d ∈ domains, name ∈ db.getWorkingTcp d) ∧
      ∀ top minDomains quarantined, ∀ c ∈ (collectHarvestCandidates confText db "tcp" top minDomains
          [.pass] quarantined).candidates, ∀ d ∈ c.domains,
        ∃ name config, getStrategyConfig db name "tcp" = some config ∧
          resolveStrategyString confText config = some c.strategy ∧ name ∈ db.getWorkingTcp d := by
  refine ⟨fun name d => mem_getWorkingTcp.trans mem_coverage.symm, fun name n => best_iff,
    total_eq_sum_domains db, total_eq_sum_names db, fun domains hnodup hlength name => common_iff hnodup hlength, ?_⟩
  intro top minDomains quarantined c hc d hd
  have hpass : ∀ status ∈ [Status.pass], status.isWorking = true := by decide
  obtain ⟨name, config, hconfig, hresolve, hworks⟩ := candidate_working hpass hc hd
  exact ⟨name, config, hconfig, hresolve, mem_getWorkingTcp.mpr hworks⟩

def rowOn (domain : String) (status : Status) : TcpEntry := ⟨"s", "tcp", "fake:ttl=3", { domain, status }⟩

def twoDomains : Db := (emptyDb.write 1 (rowOn "a.com" .throttled)).write 1 (rowOn "b.com" .fail)

theorem twoDomains_agree : countTcpPasses twoDomains none =
      ((twoDomains.tcp.map (·.columns.domain)).dedup.map (fun d => countTcpPasses twoDomains (some d))).sum ∧
    ((∃ row ∈ getCommonTcp twoDomains ["a.com", "b.com"] none, row.strategy = "s") ↔
      ∀ d ∈ ["a.com", "b.com"], "s" ∈ twoDomains.getWorkingTcp d) :=
  ⟨(views_agree (fun _ => none) twoDomains).2.2.1 (by decide +kernel),
    (views_agree (fun _ => none) twoDomains).2.2.2.2.1 ["a.com", "b.com"] (by decide) (by decide) "s"⟩

def emptyDomain : Db := (emptyDb.write 1 (rowOn "a.com" .throttled)).write 1 (rowOn "" .fail)

theorem emptyDomain_counts_all : ¬ countTcpPasses emptyDomain none =
    ((emptyDomain.tcp.map (·.columns.domain)).dedup.map (fun d => countTcpPasses emptyDomain (some d))).sum := by
  decide +kernel

end Blockchecks.HarvestBatch
