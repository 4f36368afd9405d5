import Blockchecks.FailPhases
import Mathlib.Data.Finset.Basic
import Mathlib.Data.Finset.Dedup
import Mathlib.Data.Rat.Defs

namespace Blockchecks.RunStore

open FailPhases

inductive Status where
  | pass | throttled | fail | skipped
  deriving DecidableEq

def Status.isWorking : Status → Bool
  | .pass | .throttled => true
  | .fail | .skipped => false

/-- The result columns of a row; the clock columns are left out. -/
structure TcpColumns where
  domain : String
  status : Status
  httpCode : Int := 0
  latencyMs : ℚ := 0
  gatewayMs : ℚ := 0
  contentValid : Bool := true
  error : String := ""
  readRateBps : ℚ := 0
  resolvedIp : String := ""
  dnsVerdict : String := ""
  dohServer : String := ""
  failPhase : String := ""
  bridgeApplied : Option Bool := none
  bridgeBatchId : Int := 0
  bridgeGen : Int := 0
  probeHost : String := ""
  settleMs : Option ℚ := none
  contentLen : Option Int := none
  deriving DecidableEq

def TcpColumns.isWorking (c : TcpColumns) : Bool :=
  c.status.isWorking && decide (c.bridgeApplied = none ∨ c.bridgeApplied = some true)

def TcpColumns.isInfraFail (c : TcpColumns) : Bool :=
  decide (c.status = .fail) && isInfraFailPhase c.failPhase c.error

theorem TcpColumns.isInfraFail_iff {c : TcpColumns} :
    c.isInfraFail = true ↔ c.status = .fail ∧ isInfraFailPhase c.failPhase c.error = true := by
  rw [isInfraFail, Bool.and_eq_true, decide_eq_true_iff]

theorem TcpColumns.isWorking_iff {c : TcpColumns} :
    c.isWorking = true ↔
      c.status.isWorking = true ∧ (c.bridgeApplied = none ∨ c.bridgeApplied = some true) := by
  rw [isWorking, Bool.and_eq_true, decide_eq_true_iff]

structure TcpEntry where
  strategy : String
  proto : String
  configPath : String
  columns : TcpColumns
  deriving DecidableEq

structure Strategy where
  id : Nat
  name : String
  proto : String
  configPath : String
  deriving DecidableEq

def Strategy.key (s : Strategy) : String × String := (s.name, s.proto)

structure TcpRow where
  id : Nat
  runId : Option Nat
  strategyId : Nat
  columns : TcpColumns
  deriving DecidableEq

/-- The two tables in the order of their row ids. -/
structure Db where
  strategies : List Strategy
  tcp : List TcpRow
  strategyIds : (strategies.map Strategy.id).Nodup
  strategyKeys : (strategies.map Strategy.key).Nodup
  rowIds : tcp.Pairwise (fun a b => a.id < b.id)
  references : ∀ t ∈ tcp, ∃ s ∈ strategies, s.id = t.strategyId

def emptyDb : Db where
  strategies := []
  tcp := []
  strategyIds := List.nodup_nil
  strategyKeys := List.nodup_nil
  rowIds := List.Pairwise.nil
  references := fun _ h => absurd h List.not_mem_nil

/-- The next id of an autoincrement column. -/
def nextId (ids : List Nat) : Nat := ids.foldr max 0 + 1

theorem lt_nextId {ids : List Nat} {i : Nat} (h : i ∈ ids) : i < nextId ids := by
  induction ids with
  | nil => exact absurd h List.not_mem_nil
  | cons j ids ih =>
      rw [nextId, List.foldr_cons]
      rcases List.mem_cons.mp h with rfl | h
      · omega
      · have := ih h
        rw [nextId] at this
        omega

def setConfigPath (key : String × String) (configPath : String) (s : Strategy) : Strategy :=
  if s.key = key ∧ configPath ≠ "" then { s with configPath := configPath } else s

@[simp] theorem setConfigPath_id (key : String × String) (configPath : String) (s : Strategy) :
    (setConfigPath key configPath s).id = s.id := by
  rw [setConfigPath]
  split <;> rfl

@[simp] theorem setConfigPath_key (key : String × String) (configPath : String) (s : Strategy) :
    (setConfigPath key configPath s).key = s.key := by
  rw [setConfigPath]
  split <;> rfl

def upsertStrategy (strategies : List Strategy) (name proto configPath : String) : List Strategy :=
  if strategies.any (fun s => s.key = (name, proto)) then
    strategies.map (setConfigPath (name, proto) configPath)
  else strategies ++ [⟨nextId (strategies.map Strategy.id), name, proto, configPath⟩]

def selectStrategy (strategies : List Strategy) (name proto : String) : Option Strategy :=
  strategies.find? (fun s => s.key = (name, proto))

theorem upsertStrategy_ids {strategies : List Strategy} (h : (strategies.map Strategy.id).Nodup)
    (name proto configPath : String) :
    ((upsertStrategy strategies name proto configPath).map Strategy.id).Nodup := by
  rw [upsertStrategy]
  split
  · simpa [List.map_map, Function.comp_def] using h
  · rw [List.map_append, List.map_singleton, ← List.concat_eq_append]
    exact List.Nodup.concat (fun hin => Nat.lt_irrefl _ (lt_nextId hin)) h

theorem upsertStrategy_keys {strategies : List Strategy} (h : (strategies.map Strategy.key).Nodup)
    (name proto configPath : String) :
    ((upsertStrategy strategies name proto configPath).map Strategy.key).Nodup := by
  rw [upsertStrategy]
  split
  · simpa [List.map_map, Function.comp_def] using h
  next hno =>
    rw [List.map_append, List.map_singleton, ← List.concat_eq_append]
    refine List.Nodup.concat (fun hin => hno ?_) h
    obtain ⟨s, hs, hkey⟩ := List.mem_map.mp hin
    exact List.any_eq_true.mpr ⟨s, hs, decide_eq_true hkey⟩

theorem upsertStrategy_keeps {strategies : List Strategy} {s : Strategy} (h : s ∈ strategies)
    (name proto configPath : String) :
    ∃ s' ∈ upsertStrategy strategies name proto configPath, s'.id = s.id ∧ s'.key = s.key := by
  rw [upsertStrategy]
  split
  · exact ⟨_, List.mem_map_of_mem h, setConfigPath_id _ _ s, setConfigPath_key _ _ s⟩
  · exact ⟨s, List.mem_append_left _ h, rfl, rfl⟩

theorem selectStrategy_upsert (strategies : List Strategy) (name proto configPath : String) :
    ∃ s ∈ upsertStrategy strategies name proto configPath, s.key = (name, proto) ∧
      selectStrategy (upsertStrategy strategies name proto configPath) name proto = some s := by
  have hex : ∃ s ∈ upsertStrategy strategies name proto configPath, s.key = (name, proto) := by
    rw [upsertStrategy]
    split
    next hin =>
      obtain ⟨s, hs, hkey⟩ := List.any_eq_true.mp hin
      exact ⟨_, List.mem_map_of_mem hs, by rw [setConfigPath_key, of_decide_eq_true hkey]⟩
    · exact ⟨_, List.mem_append_right _ (List.mem_singleton_self _), rfl⟩
  obtain ⟨s, hs, hkey⟩ := hex
  rw [selectStrategy]
  cases hf : (upsertStrategy strategies name proto configPath).find?
      (fun s => s.key = (name, proto)) with
  | none => exact absurd (List.find?_eq_none.mp hf s hs) (by simp [hkey])
  | some s' => exact ⟨s', List.mem_of_find?_eq_some hf, by simpa using List.find?_some hf, rfl⟩

namespace Db

variable (db : Db)

def ensureStrategy (name proto configPath : String) : Db where
  strategies := upsertStrategy db.strategies name proto configPath
  tcp := db.tcp
  strategyIds := upsertStrategy_ids db.strategyIds name proto configPath
  strategyKeys := upsertStrategy_keys db.strategyKeys name proto configPath
  rowIds := db.rowIds
  references := by
    intro t ht
    obtain ⟨s, hs, hid⟩ := db.references t ht
    obtain ⟨s', hs', hid', _⟩ := upsertStrategy_keeps hs name proto configPath
    exact ⟨s', hs', hid'.trans hid⟩

def insertTcp (runId : Nat) (s : Strategy) (hs : s ∈ db.strategies) (columns : TcpColumns) : Db where
  strategies := db.strategies
  tcp := db.tcp ++ [⟨nextId (db.tcp.map TcpRow.id), some runId, s.id, columns⟩]
  strategyIds := db.strategyIds
  strategyKeys := db.strategyKeys
  rowIds := by
    rw [List.pairwise_append]
    refine ⟨db.rowIds, List.pairwise_singleton _ _, ?_⟩
    intro a ha b hb
    rw [List.mem_singleton.mp hb]
    exact lt_nextId (List.mem_map_of_mem ha)
  references := by
    intro t ht
    rcases List.mem_append.mp ht with ht | ht
    · exact db.references t ht
    · rw [List.mem_singleton.mp ht]
      exact ⟨s, hs, rfl⟩

/-- Write one logged entry. The strategy that was just upserted is always found. -/
def write (runId : Nat) (entry : TcpEntry) : Db :=
  let db := db.ensureStrategy entry.strategy entry.proto entry.configPath
  match h : selectStrategy db.strategies entry.strategy entry.proto with
  | some s => db.insertTcp runId s (List.mem_of_find?_eq_some h) entry.columns
  | none => db

def joined : List (TcpRow × Strategy) :=
  db.tcp.flatMap (fun t => (db.strategies.filter (fun s => s.id = t.strategyId)).map (Prod.mk t))

/-- The id that the correlated subquery selects for a row: the last row of its
strategy and domain in scope. -/
def latestId (scope : Option Nat → Bool) (t : TcpRow) : Option Nat :=
  ((db.tcp.filter (fun t2 => t2.strategyId = t.strategyId ∧ t2.columns.domain = t.columns.domain ∧
    scope t2.runId = true)).getLast?).map TcpRow.id

def latestRows (proto : String) (scope : Option Nat → Bool) : List (TcpRow × Strategy) :=
  db.joined.filter (fun p => p.2.proto = proto ∧ scope p.1.runId = true ∧
    some p.1.id = db.latestId scope p.1)

end Db

def anyRun : Option Nat → Bool := fun _ => true

def inRun (runId : Nat) : Option Nat → Bool := fun r => r = some runId

namespace Db

variable (db : Db)

def hasTcpResult (runId : Nat) (strategy domain proto : String) : Bool :=
  db.joined.any (fun p => p.2.name = strategy ∧ p.2.proto = proto ∧ p.1.columns.domain = domain ∧
    p.1.runId = some runId)

def keyOf (p : TcpRow × Strategy) : String × String := (p.2.name, p.1.columns.domain)

def getCompletedTcpKeys (runId : Option Nat) (proto : String) : Finset (String × String) :=
  match runId with
  | none => ∅
  | some runId => (((db.latestRows proto (inRun runId)).filter
      (fun p => p.1.columns.isWorking)).map keyOf).toFinset

def countInfraFailRows (strategy domain proto : String) (runId : Nat) : Nat :=
  (db.joined.filter (fun p => p.2.name = strategy ∧ p.2.proto = proto ∧
    p.1.columns.domain = domain ∧ p.1.runId = some runId ∧ p.1.columns.status = .fail)).countP
    (fun p => isInfraFailPhase p.1.columns.failPhase p.1.columns.error)

def getResumeSkipTcpKeys (runId : Option Nat) (proto : String) (reprobeFailed : Int) :
    Finset (String × String) :=
  let working := db.getCompletedTcpKeys runId proto
  if reprobeFailed ≤ 0 then working
  else match runId with
    | none => working
    | some runId =>
        let latestFails := (db.latestRows proto (inRun runId)).filter
          (fun p => p.1.columns.status = .fail)
        let skipFail := latestFails.filter (fun p =>
          if keyOf p ∈ working then false
          else if isInfraFailPhase p.1.columns.failPhase p.1.columns.error then
            decide (reprobeFailed ≤ db.countInfraFailRows p.2.name p.1.columns.domain proto runId)
          else true)
        working ∪ (skipFail.map keyOf).toFinset

structure WorkingDetail where
  name : String
  status : Status
  latencyMs : ℚ
  deriving DecidableEq

def getWorkingProtoDetails (domain proto : String) : List WorkingDetail :=
  ((db.latestRows proto anyRun).filter
    (fun p => p.1.columns.domain = domain ∧ p.1.columns.isWorking = true)).map
    (fun p => ⟨p.2.name, p.1.columns.status, p.1.columns.latencyMs⟩)

def getWorkingProto (domain proto : String) : List String :=
  (db.getWorkingProtoDetails domain proto).map (·.name)

def getWorkingTcp (domain : String) : List String := db.getWorkingProto domain "tcp"

def getWorkingQuic (domain : String) : List String := db.getWorkingProto domain "quic"

structure BestRow where
  strategy : String
  latencyMs : ℚ
  httpCode : Int
  probeHost : String
  deriving DecidableEq

def getBest (proto domain : String) (limit : Nat) : List BestRow :=
  ((((db.latestRows proto anyRun).filter
    (fun p => p.1.columns.domain = domain ∧ p.1.columns.isWorking = true)).mergeSort
    (fun a b => a.1.columns.latencyMs ≤ b.1.columns.latencyMs)).take limit).map
    (fun p => ⟨p.2.name, p.1.columns.latencyMs, p.1.columns.httpCode, p.1.columns.probeHost⟩)

def getBestTcp (domain : String) (limit : Nat) : List BestRow := db.getBest "tcp" domain limit

def getBestQuic (domain : String) (limit : Nat) : List BestRow := db.getBest "quic" domain limit

/-- One row for each domain: its number of rows and of working rows. -/
def domainPassRows : List (String × Int × Int) :=
  (db.tcp.map (·.columns.domain)).dedup.map (fun d =>
    let rows := db.tcp.filter (fun t => t.columns.domain = d)
    (d, rows.length, rows.countP (fun t => t.columns.isWorking)))

def domainDnsResolveFailRows : List (String × Int × Int) :=
  (db.tcp.map (·.columns.domain)).dedup.map (fun d =>
    let rows := db.tcp.filter (fun t => t.columns.domain = d)
    (d, rows.countP (fun t => t.columns.failPhase = "dns_resolve"),
      rows.countP (fun t => t.columns.isWorking)))

end Db

end Blockchecks.RunStore
