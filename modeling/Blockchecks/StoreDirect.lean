import Blockchecks.ProbeLogger

namespace Blockchecks.StoreDirect

open RunStore ProbeLogger

/-- What the clocks read during one call. -/
structure Clock where
  timestamp : String
  epochMs : Int
  marked : ℚ
  checked : ℚ
  stamped : timestamp ≠ ""

/-- The arguments of log_tcp. -/
structure TcpArgs where
  strategy : String
  domain : String
  status : String
  latencyMs : ℚ
  httpCode : Int := 0
  gatewayMs : ℚ := 0
  contentValid : Bool := true
  error : String := ""
  readRateBps : ℚ := 0
  configPath : String := ""
  resolvedIp : String := ""
  dnsVerdict : String := ""
  dohServer : String := ""
  proto : String := "tcp"
  failPhase : String := ""
  bridgeApplied : Option Bool := none
  bridgeBatchId : Int := 0
  bridgeGen : Int := 0
  probeHost : String := ""
  settleMs : Option ℚ := none
  contentLen : Option Int := none

/-- The arguments of log_udp. -/
structure UdpArgs where
  strategy : String
  target : String
  status : String
  latencyMs : ℚ := 0
  error : String := ""
  configPath : String := ""

inductive Call where
  | tcp (args : TcpArgs)
  | udp (args : UdpArgs)

structure TcpCells where
  domain : String
  status : String
  httpCode : Int
  latencyMs : ℚ
  gatewayWsMs : ℚ
  contentValid : Int
  error : String
  timestamp : String
  readRateBps : ℚ
  resolvedIp : String
  dnsVerdict : String
  dohServer : String
  failPhase : String
  bridgeApplied : Option Int
  bridgeBatchId : Int
  bridgeGen : Int
  probeHost : String
  epochMs : Option Int
  settleMs : Option ℚ
  contentLen : Option Int
  deriving DecidableEq

structure UdpCells where
  target : String
  status : String
  latencyMs : ℚ
  error : String
  timestamp : String
  epochMs : Option Int
  deriving DecidableEq

/-- A buffered row of log_tcp. -/
structure TcpPending where
  strategy : String
  proto : String
  configPath : String
  domain : String
  status : String
  httpCode : Int
  latencyMs : ℚ
  gatewayMs : ℚ
  contentValid : Int
  error : String
  timestamp : String
  readRateBps : ℚ
  resolvedIp : String
  dnsVerdict : String
  dohServer : String
  failPhase : String
  bridgeApplied : Option Bool
  probeHost : String
  bridgeBatchId : Int
  bridgeGen : Int
  epochMs : Int
  settleMs : Option ℚ
  contentLen : Option Int

/-- A buffered row of log_udp. -/
structure UdpPending where
  strategy : String
  configPath : String
  target : String
  status : String
  latencyMs : ℚ
  error : String
  timestamp : String
  epochMs : Int

def pendTcp (clock : Clock) (args : TcpArgs) : TcpPending where
  strategy := args.strategy
  proto := args.proto
  configPath := orElse args.configPath args.strategy
  domain := args.domain
  status := args.status
  httpCode := args.httpCode
  latencyMs := args.latencyMs
  gatewayMs := args.gatewayMs
  contentValid := args.contentValid.toInt
  error := args.error
  timestamp := clock.timestamp
  readRateBps := args.readRateBps
  resolvedIp := orElse args.resolvedIp ""
  dnsVerdict := orElse args.dnsVerdict ""
  dohServer := orElse args.dohServer ""
  failPhase := orElse args.failPhase ""
  bridgeApplied := args.bridgeApplied
  probeHost := orElse args.probeHost ""
  bridgeBatchId := args.bridgeBatchId
  bridgeGen := args.bridgeGen
  epochMs := clock.epochMs
  settleMs := args.settleMs
  contentLen := args.contentLen

def pendUdp (clock : Clock) (args : UdpArgs) : UdpPending where
  strategy := args.strategy
  configPath := orElse args.configPath args.strategy
  target := args.target
  status := args.status
  latencyMs := args.latencyMs
  error := args.error
  timestamp := clock.timestamp
  epochMs := clock.epochMs

/-- The values of a buffered row at its flush, when the clock reads now. -/
def tcpRowValues (now : String) (entry : TcpPending) : TcpCells where
  domain := entry.domain
  status := entry.status
  httpCode := entry.httpCode
  latencyMs := entry.latencyMs
  gatewayWsMs := entry.gatewayMs
  contentValid := entry.contentValid
  error := entry.error
  timestamp := orElse entry.timestamp now
  readRateBps := entry.readRateBps
  resolvedIp := entry.resolvedIp
  dnsVerdict := entry.dnsVerdict
  dohServer := entry.dohServer
  failPhase := orElse entry.failPhase ""
  bridgeApplied := entry.bridgeApplied.map Bool.toInt
  bridgeBatchId := entry.bridgeBatchId
  bridgeGen := entry.bridgeGen
  probeHost := orElse entry.probeHost ""
  epochMs := some entry.epochMs
  settleMs := entry.settleMs
  contentLen := entry.contentLen

def udpRowValues (now : String) (entry : UdpPending) : UdpCells where
  target := entry.target
  status := entry.status
  latencyMs := entry.latencyMs
  error := entry.error
  timestamp := orElse entry.timestamp now
  epochMs := some entry.epochMs

/-- The values that log_tcp inserts by itself. -/
def directTcpValues (clock : Clock) (args : TcpArgs) : TcpCells where
  domain := args.domain
  status := args.status
  httpCode := args.httpCode
  latencyMs := args.latencyMs
  gatewayWsMs := args.gatewayMs
  contentValid := args.contentValid.toInt
  error := args.error
  timestamp := clock.timestamp
  readRateBps := args.readRateBps
  resolvedIp := orElse args.resolvedIp ""
  dnsVerdict := orElse args.dnsVerdict ""
  dohServer := orElse args.dohServer ""
  failPhase := orElse args.failPhase ""
  bridgeApplied := args.bridgeApplied.map Bool.toInt
  bridgeBatchId := args.bridgeBatchId
  bridgeGen := args.bridgeGen
  probeHost := orElse args.probeHost ""
  epochMs := some clock.epochMs
  settleMs := args.settleMs
  contentLen := args.contentLen

def directUdpValues (clock : Clock) (args : UdpArgs) : UdpCells where
  target := args.target
  status := args.status
  latencyMs := args.latencyMs
  error := args.error
  timestamp := clock.timestamp
  epochMs := some clock.epochMs

theorem orElse_empty (s : String) : orElse s "" = s := by
  rw [orElse]
  split
  next h => rw [h]
  · rfl

theorem tcpRowValues_pendTcp (now : String) (clock : Clock) (args : TcpArgs) :
    tcpRowValues now (pendTcp clock args) = directTcpValues clock args := by
  have hstamp : orElse clock.timestamp now = clock.timestamp := if_neg clock.stamped
  simp only [tcpRowValues, directTcpValues, pendTcp, orElse_empty, hstamp]

theorem udpRowValues_pendUdp (now : String) (clock : Clock) (args : UdpArgs) :
    udpRowValues now (pendUdp clock args) = directUdpValues clock args := by
  have hstamp : orElse clock.timestamp now = clock.timestamp := if_neg clock.stamped
  simp only [udpRowValues, directUdpValues, pendUdp, hstamp]

/-- A row of a result table. -/
structure Row (α : Type) where
  id : Nat
  runId : Option Nat
  strategyId : Option Nat
  cells : α
  deriving DecidableEq

structure Tables where
  strategies : List Strategy
  tcp : List (Row TcpCells)
  udp : List (Row UdpCells)

def insertRow {α : Type} (runId : Nat) (rows : List (Row α)) (values : Nat × α) : List (Row α) :=
  rows ++ [⟨nextId (rows.map Row.id), some runId, some values.1, values.2⟩]

namespace Tables

/-- Upsert a strategy and read its id back; none is the RuntimeError. -/
def ensureStrategy (t : Tables) (name proto configPath : String) : Option (Tables × Nat) :=
  let strategies := upsertStrategy t.strategies name proto configPath
  (selectStrategy strategies name proto).map (fun s => ({ t with strategies := strategies }, s.id))

def insertTcp (t : Tables) (runId : Nat) (rows : List (Nat × TcpCells)) : Tables :=
  { t with tcp := rows.foldl (insertRow runId) t.tcp }

def insertUdp (t : Tables) (runId : Nat) (rows : List (Nat × UdpCells)) : Tables :=
  { t with udp := rows.foldl (insertRow runId) t.udp }

end Tables

abbrev Cache := List ((String × String) × Nat)

/-- The ids that a flush has seen so far spare the upsert. -/
def ensureStrategyCached (t : Tables) (cache : Cache) (name proto configPath : String) :
    Option (Tables × Cache × Nat) :=
  match cache.lookup (name, proto) with
  | some sid => some (t, cache, sid)
  | none => do
      let (t, sid) ← t.ensureStrategy name proto configPath
      some (t, ((name, proto), sid) :: cache, sid)

/-- What a flush needs of a buffered row. -/
structure Entry (α : Type) where
  name : String
  proto : String
  configPath : String
  cells : α

def TcpPending.entry (now : String) (e : TcpPending) : Entry TcpCells :=
  ⟨e.strategy, e.proto, e.configPath, tcpRowValues now e⟩

def UdpPending.entry (now : String) (e : UdpPending) : Entry UdpCells :=
  ⟨e.strategy, "udp", e.configPath, udpRowValues now e⟩

/-- The loop that collects the rows of one table. -/
def collectRows {α : Type} (t : Tables) (cache : Cache) :
    List (Entry α) → Option (Tables × Cache × List (Nat × α))
  | [] => some (t, cache, [])
  | e :: rest => do
      let (t, cache, sid) ← ensureStrategyCached t cache e.name e.proto e.configPath
      let (t, cache, rows) ← collectRows t cache rest
      some (t, cache, (sid, e.cells) :: rows)

/-- The transaction of a flush. -/
def writeBatch (t : Tables) (runId : Nat) (tcpBatch : List (Entry TcpCells))
    (udpBatch : List (Entry UdpCells)) : Option Tables := do
  let (t, cache, tcpRows) ← collectRows t [] tcpBatch
  let (t, _, udpRows) ← collectRows (t.insertTcp runId tcpRows) cache udpBatch
  some (t.insertUdp runId udpRows)

structure Store where
  tables : Tables
  nextRun : Nat
  runId : Option Nat
  batchSize : Nat
  flushInterval : ℚ
  tcpPending : List TcpPending
  udpPending : List UdpPending
  pendingSince : Option ℚ

namespace Store

def ensureRunId (s : Store) : Store × Nat :=
  match s.runId with
  | some runId => (s, runId)
  | none => ({ s with runId := some s.nextRun, nextRun := s.nextRun + 1 }, s.nextRun)

def flush (s : Store) (now : String) : Option Store :=
  if s.tcpPending = [] ∧ s.udpPending = [] then some s
  else do
    let (s, runId) := s.ensureRunId
    let tables ← writeBatch s.tables runId (s.tcpPending.map (TcpPending.entry now))
      (s.udpPending.map (UdpPending.entry now))
    some { s with tables := tables, tcpPending := [], udpPending := [], pendingSince := none }

def markPending (s : Store) (clock : Clock) : Store :=
  { s with pendingSince := some (s.pendingSince.getD clock.marked) }

def maybeFlushByAge (s : Store) (clock : Clock) : Option Store :=
  match s.pendingSince with
  | none => some s
  | some since =>
      if s.flushInterval ≤ clock.checked - since then s.flush clock.timestamp else some s

def logTcp (s : Store) (clock : Clock) (args : TcpArgs) : Option Store :=
  if 0 < s.batchSize then
    let s := { s with tcpPending := s.tcpPending ++ [pendTcp clock args] }.markPending clock
    if s.batchSize ≤ s.tcpPending.length then s.flush clock.timestamp
    else s.maybeFlushByAge clock
  else do
    let (s, runId) := s.ensureRunId
    let (t, sid) ← s.tables.ensureStrategy args.strategy args.proto
      (orElse args.configPath args.strategy)
    some { s with tables := t.insertTcp runId [(sid, directTcpValues clock args)] }

def logUdp (s : Store) (clock : Clock) (args : UdpArgs) : Option Store :=
  if 0 < s.batchSize then
    let s := { s with udpPending := s.udpPending ++ [pendUdp clock args] }.markPending clock
    if s.batchSize ≤ s.udpPending.length then s.flush clock.timestamp
    else s.maybeFlushByAge clock
  else do
    let (s, runId) := s.ensureRunId
    let (t, sid) ← s.tables.ensureStrategy args.strategy "udp"
      (orElse args.configPath args.strategy)
    some { s with tables := t.insertUdp runId [(sid, directUdpValues clock args)] }

end Store

/-- One call of the store. The timer of a buffered store flushes as well. -/
inductive Op where
  | log (clock : Clock) (call : Call)
  | flush (now : String)

def Store.step (s : Store) : Op → Option Store
  | .log clock (.tcp args) => s.logTcp clock args
  | .log clock (.udp args) => s.logUdp clock args
  | .flush now => s.flush now

def Store.run (s : Store) (ops : List Op) : Option Store := ops.foldlM Store.step s

/-- What SQLite keeps true of the tables. -/
structure Tables.Sound (t : Tables) : Prop where
  ids : (t.strategies.map Strategy.id).Nodup
  keys : (t.strategies.map Strategy.key).Nodup
  tcpRefs : ∀ r ∈ t.tcp, ∀ i, r.strategyId = some i → ∃ s ∈ t.strategies, s.id = i
  udpRefs : ∀ r ∈ t.udp, ∀ i, r.strategyId = some i → ∃ s ∈ t.strategies, s.id = i

abbrev Database := { t : Tables // t.Sound }

/-- A row as a reader sees it who knows strategies by name and protocol. -/
structure Seen (α : Type) where
  id : Nat
  runId : Option Nat
  strategy : Option (String × String)
  cells : α
  deriving DecidableEq

namespace Tables

variable (t : Tables)

def keyOf (id : Nat) : Option (String × String) :=
  (t.strategies.find? (fun s => s.id = id)).map Strategy.key

def configOf (key : String × String) : Option String :=
  (t.strategies.find? (fun s => s.key = key)).map Strategy.configPath

def see {α : Type} (r : Row α) : Seen α := ⟨r.id, r.runId, r.strategyId.bind t.keyOf, r.cells⟩

def tcpRows : List (Seen TcpCells) := t.tcp.map t.see

def udpRows : List (Seen UdpCells) := t.udp.map t.see

def strategySet : Finset (String × String × String) :=
  (t.strategies.map (fun s => (s.name, s.proto, s.configPath))).toFinset

end Tables

/-- A store that is opened on a database, before or after begin_run. -/
def openStore (db : Database) (runId : Option Nat) (nextRun batchSize : Nat) (flushInterval : ℚ) :
    Store where
  tables := db.1
  nextRun := nextRun
  runId := runId
  batchSize := batchSize
  flushInterval := flushInterval
  tcpPending := []
  udpPending := []
  pendingSince := none

end Blockchecks.StoreDirect
