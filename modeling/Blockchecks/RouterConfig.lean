import Blockchecks.LatestViews

namespace Blockchecks.RouterConfig

open RunStore RunLog StoreViews LatestViews

structure PassGroup where
  name : String
  domains : Nat
  latencyMs : ℚ

/-- All rows with a PASS, whatever came after them and whether or not the
strategy was seen to be applied. -/
def passRows (db : Db) : List (TcpRow × Strategy) :=
  db.joined.filter (fun p => p.2.proto = "tcp" ∧ p.1.columns.status = .pass)

def passGroups (db : Db) : List PassGroup :=
  ((passRows db).map (fun p => p.2.name)).dedup.map (fun name =>
    let group := (passRows db).filter (fun p => p.2.name = name)
    ⟨name, (group.map (fun p => p.1.columns.domain)).dedup.length,
      avg (group.map (fun p => p.1.columns.latencyMs))⟩)

def passNames (db : Db) : List String :=
  (((passGroups db).mergeSort (fun a b => b.domains < a.domains ∨
    a.domains = b.domains ∧ a.latencyMs ≤ b.latencyMs)).take 5).map PassGroup.name

def stockTcpStrategies : List String := ["fake:blob=stun:repeats=6:tcp_ts=-1000"]

/-- The texts that generate_config hands to the builders of a configuration. -/
def tcpStrategiesForRouterConfig (db : Option Db) : List String :=
  let names := (db.map passNames).getD []
  if names = [] then stockTcpStrategies else names

variable {db : Db} {name : String}

theorem mem_workingPairs_iff {d : String} : (name, d) ∈ workingPairs db ↔
    ∃ l, lastLogged (log db) "tcp" anyRun (name, d) = some l ∧ l.columns.isWorking = true := by
  refine Iff.trans ?_ (exists_latestRow_iff (P := fun c => c.isWorking = true))
  simp only [workingPairs, workingRows, List.mem_map, List.mem_filter]
  constructor
  · rintro ⟨p, ⟨hp, hworks⟩, hkey⟩
    exact ⟨p, hp, hkey, hworks⟩
  · rintro ⟨p, hp, hkey, hworks⟩
    exact ⟨p, ⟨hp, hworks⟩, hkey⟩

/-- A name is ranked if the last row of one of its domains works. -/
theorem ranked_iff : (∃ row ∈ getBestByCoverage db none, row.strategy = name) ↔
    ∃ d l, lastLogged (log db) "tcp" anyRun (name, d) = some l ∧ l.columns.isWorking = true := by
  have hbest : (∃ row ∈ getBestByCoverage db none, row.strategy = name) ↔
      0 < (coverageScore db name).domains.length := by
    constructor
    · rintro ⟨row, hrow, hname⟩
      obtain ⟨hlength, hpos⟩ := best_iff.mp ⟨row, hrow, hname, rfl⟩
      exact hlength ▸ hpos
    · intro hpos
      obtain ⟨row, hrow, hname, _⟩ := best_iff.mpr ⟨rfl, hpos⟩
      exact ⟨row, hrow, hname⟩
  rw [hbest, List.length_pos_iff_exists_mem]
  exact exists_congr (fun d => mem_coverage.trans mem_workingPairs_iff)

/-- The text is what the store has for a strategy that is ranked. -/
def RankedText (db : Db) (text : String) : Prop :=
  ∃ row ∈ getBestByCoverage db none, getStrategyConfig db row.strategy "tcp" = some text

/-- The name of a strategy is the text of one, and the last row of one of its
domains works. -/
def NamesWorkingText (db : Db) (name : String) : Prop :=
  ∃ s ∈ db.strategies, s.proto = "tcp" ∧ s.configPath = name ∧
    ∃ d l, lastLogged (log db) "tcp" anyRun (s.name, d) = some l ∧ l.columns.isWorking = true

theorem rankedText_iff (text : String) : RankedText db text ↔ NamesWorkingText db text := by
  constructor
  · rintro ⟨row, hrow, hconfig⟩
    obtain ⟨s, hs, hname, hproto, htext⟩ := getStrategyConfig_iff.mp hconfig
    exact ⟨s, hs, hproto, htext, ranked_iff.mp ⟨row, hrow, hname.symm⟩⟩
  · rintro ⟨s, hs, hproto, htext, hworks⟩
    obtain ⟨row, hrow, hname⟩ := ranked_iff.mpr hworks
    exact ⟨row, hrow, getStrategyConfig_iff.mpr ⟨s, hs, hname.symm, hproto, htext⟩⟩

def passedOnce : Db :=
  emptyDb.write 1 ⟨"u1", "tcp", "fake:ttl=3", { domain := "a.com", status := .pass, bridgeApplied := some true }⟩

end Blockchecks.RouterConfig
