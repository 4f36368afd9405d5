import Blockchecks.RunLog
import Mathlib.Algebra.Order.Floor.Ring
import Mathlib.Data.Rat.Floor

namespace Blockchecks.StoreViews

open RunStore

/-- To one decimal, halves away from zero. -/
def round1 (x : ℚ) : ℚ := if 0 ≤ x then ⌊x * 10 + 1 / 2⌋ / 10 else ⌈x * 10 - 1 / 2⌉ / 10

def avg (values : List ℚ) : ℚ := values.sum / values.length

structure DomainPassStats where
  total : Nat
  passed : Nat
  deriving DecidableEq

structure CoverageScore where
  strategy : String
  domainsPassed : Nat
  avgLatencyMs : ℚ
  domains : List String
  deriving DecidableEq

structure CoverageRow where
  strategy : String
  domainsPassed : Nat
  avgLatencyMs : ℚ
  deriving DecidableEq

/-- The rows of a LIMIT, or all of them. -/
def limited {α : Type} (limit : Option Nat) (rows : List α) : List α :=
  match limit with
  | none => rows
  | some n => rows.take n

/-- One row for each name: the distinct domains of its rows, and their average. -/
def groupByName (rows : List (TcpRow × Strategy)) : List CoverageRow :=
  (rows.map (fun p => p.2.name)).dedup.map (fun name =>
    let group := rows.filter (fun p => p.2.name = name)
    ⟨name, (group.map (fun p => p.1.columns.domain)).dedup.length,
      round1 (avg (group.map (fun p => p.1.columns.latencyMs)))⟩)

variable (db : Db)

def domainPassStats (domain : String) (protos : List String) : DomainPassStats :=
  let rows := db.joined.filter (fun p => p.1.columns.domain = domain ∧ p.2.proto ∈ protos ∧
    some p.1.id = db.latestId anyRun p.1)
  ⟨rows.length, rows.countP (fun p => p.1.columns.isWorking)⟩

/-- An empty domain counts for none. -/
def countTcpPasses (domain : Option String) : Nat :=
  match domain with
  | some d =>
      if d = "" then (db.latestRows "tcp" anyRun).countP (fun p => p.1.columns.isWorking)
      else (domainPassStats db d ["tcp"]).passed
  | none => (db.latestRows "tcp" anyRun).countP (fun p => p.1.columns.isWorking)

def coverageScore (strategy : String) : CoverageScore :=
  let data := db.joined.filter (fun p => p.2.name = strategy ∧ p.2.proto = "tcp" ∧
    p.1.columns.isWorking = true ∧ some p.1.id = db.latestId anyRun p.1)
  if data = [] then ⟨strategy, 0, 0, []⟩
  else ⟨strategy, data.length, round1 (avg (data.map (fun p => p.1.columns.latencyMs))),
    data.map (fun p => p.1.columns.domain)⟩

def getBestByCoverage (limit : Option Nat) : List CoverageRow :=
  let rows := (db.latestRows "tcp" anyRun).filter (fun p => p.1.columns.isWorking)
  limited limit (((groupByName rows).filter (fun row => 0 < row.domainsPassed)).mergeSort (fun a b =>
    b.domainsPassed < a.domainsPassed ∨
      a.domainsPassed = b.domainsPassed ∧ a.avgLatencyMs ≤ b.avgLatencyMs))

def getCommonTcp (domains : List String) (limit : Option Nat) : List CoverageRow :=
  if domains.length < 2 then []
  else
    let rows := (db.latestRows "tcp" anyRun).filter
      (fun p => p.1.columns.domain ∈ domains ∧ p.1.columns.isWorking = true)
    limited limit (((groupByName rows).filter (fun row => row.domainsPassed = domains.length)).mergeSort
      (fun a b => a.avgLatencyMs ≤ b.avgLatencyMs))

def getStrategyConfig (name proto : String) : Option String :=
  (db.strategies.find? (fun s => s.name = name ∧ s.proto = proto)).map Strategy.configPath

end Blockchecks.StoreViews
