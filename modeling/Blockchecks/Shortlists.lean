import Blockchecks.CommonExport
import Blockchecks.ProbeLogger

namespace Blockchecks.Shortlists

open StrategyText RunStore StoreViews CommonExport ProbeLogger

structure UdpRow where
  id : Nat
  strategyId : Nat
  target : String
  status : Status
  latencyMs : ℚ
  deriving DecidableEq

structure PairRow where
  id : Nat
  tcpStrategy : String
  udpStrategy : String
  domain : String
  overall : Status
  tcpMs : ℚ
  udpMs : ℚ
  deriving DecidableEq

/-- A state database with all its tables of results, each in the order of its ids. -/
structure SourceDb where
  db : Db
  udp : List UdpRow
  pairs : List PairRow

/-! The queries, with a LIMIT that is none when it is negative. -/

def sqlLimit (limit : Int) : Option Nat := if limit < 0 then none else some limit.toNat

/-- Without a LIMIT there are still no more rows than results. -/
def getBest (db : Db) (proto domain : String) (limit : Int) : List Db.BestRow :=
  db.getBest proto domain ((sqlLimit limit).getD db.tcp.length)

section queries

variable (source : SourceDb)

def getBestUdp (limit : Int) : List (UdpRow × Strategy) :=
  let joined := source.udp.flatMap (fun t =>
    (source.db.strategies.filter (fun s => s.id = t.strategyId)).map (Prod.mk t))
  limited (sqlLimit limit) ((joined.filter (fun p => p.2.proto = "udp" ∧ p.1.status.isWorking = true ∧
    some p.1.id = ((source.udp.filter (fun t => t.strategyId = p.2.id)).getLast?).map UdpRow.id)).mergeSort
      (fun a b => a.1.latencyMs ≤ b.1.latencyMs))

def getBestPairs (domain : String) (limit : Int) : List PairRow :=
  limited (sqlLimit limit) ((source.pairs.filter (fun p => p.domain = domain ∧ p.overall.isWorking = true ∧
    some p.id = ((source.pairs.filter (fun q => q.tcpStrategy = p.tcpStrategy ∧ q.udpStrategy = p.udpStrategy ∧
      q.domain = p.domain)).getLast?).map PairRow.id)).mergeSort
      (fun a b => a.tcpMs + a.udpMs ≤ b.tcpMs + b.udpMs))

end queries

/-! collect_export_strategies without the stock strategies, which build_shortlist_entries does not ask for. -/

/-- A slice up to the limit, which a negative one counts from the end. -/
def sliceTo {α : Type} (limit : Int) (rows : List α) : List α :=
  if limit < 0 then rows.take (rows.length - limit.natAbs) else rows.take limit.toNat

section collect

variable (confText : List Char → Option (List Char)) (source : SourceDb)

def exported (proto name : String) : Option String :=
  resolveExportStrategy confText (getStrategyConfig source.db name proto) name

def collectTcp (domain : String) (limit : Int) (domains : List String) (commonOnly : Bool) : List String :=
  if commonOnly ∧ 1 < domains.length then
    (getCommonTcp source.db domains (sqlLimit limit)).filterMap (fun row => exported confText source "tcp" row.strategy)
  else
    let covered := getBestByCoverage source.db (sqlLimit limit)
    if covered ≠ [] then covered.filterMap (fun row => exported confText source "tcp" row.strategy)
    else
      let best := (getBest source.db "tcp" domain limit).filterMap
        (fun row => exported confText source "tcp" row.strategy)
      if best ≠ [] then best
      else (sliceTo limit (source.db.getWorkingTcp domain)).filterMap (exported confText source "tcp")

/-- The loop over the pairs, with the UDP strategies that it has seen. -/
def collectPairs (limit : Int) (seen strats : List String) : List PairRow → List String
  | [] => strats
  | p :: pairs =>
      if p.udpStrategy ∈ seen then collectPairs limit seen strats pairs
      else
        let strats := strats ++ (exported confText source "udp" p.udpStrategy).toList
        if limit ≤ strats.length then strats else collectPairs limit (p.udpStrategy :: seen) strats pairs

def collectUdp (domain : String) (limit : Int) : List String :=
  let strats := collectPairs confText source limit [] [] (getBestPairs source domain (limit * 2))
  if strats ≠ [] then strats
  else (getBestUdp source limit).filterMap (fun row => exported confText source "udp" row.2.name)

def collectQuic (domain : String) (limit : Int) : List String :=
  (getBest source.db "quic" domain limit).filterMap (fun row => exported confText source "quic" row.strategy)

end collect

/-! The export: shortlist_export. -/

/-- A row of a shortlist. A field that is none is left out. -/
structure ShortlistRow where
  label : String
  strategy : String
  domainsPass : Option (List String) := none
  domainsPassCount : Option Nat := none
  target : Option String := none
  avgLatencyMs : Option ℚ := none
  latencyMs : Option ℚ := none
  deriving DecidableEq

structure Shortlist where
  domains : List String
  tcp : List ShortlistRow
  udp : List ShortlistRow
  quic : List ShortlistRow
  commonTcp : List ShortlistRow

def primaryOf (domains : List String) : String := domains.head?.getD "discord.com"

section entries

variable (source : SourceDb)

/-- The text of a strategy in a row: its config_path, or its name. -/
def rowStrategy (proto name : String) : String :=
  let config := (getStrategyConfig source.db name proto).getD ""
  if config ≠ "" then config else name

def commonRows (domains : List String) (limit : Int) (includeCommon : Bool) : List ShortlistRow :=
  if includeCommon ∧ 1 < domains.length then
    (getCommonTcp source.db domains (sqlLimit limit)).map (fun row =>
      { label := row.strategy
        strategy := rowStrategy source "tcp" row.strategy
        domainsPass := some domains
        avgLatencyMs := some row.avgLatencyMs })
  else []

def bestTcpRows (domain : String) (limit : Int) : List ShortlistRow :=
  (getBest source.db "tcp" domain limit).map (fun row =>
    { label := row.strategy
      strategy := rowStrategy source "tcp" row.strategy
      domainsPass := some [domain]
      avgLatencyMs := some row.latencyMs })

def coverageRows (limit : Int) : List ShortlistRow :=
  (getBestByCoverage source.db (sqlLimit limit)).map (fun row =>
    { label := row.strategy
      strategy := rowStrategy source "tcp" row.strategy
      domainsPassCount := some row.domainsPassed
      avgLatencyMs := some row.avgLatencyMs })

def tcpRows (domain : String) (limit : Int) : List ShortlistRow :=
  if bestTcpRows source domain limit ≠ [] then bestTcpRows source domain limit else coverageRows source limit

def udpRows (limit : Int) : List ShortlistRow :=
  (getBestUdp source limit).map (fun row =>
    { label := row.2.name
      strategy := rowStrategy source "udp" row.2.name
      target := some row.1.target
      latencyMs := some row.1.latencyMs })

def quicRows (domain : String) (limit : Int) : List ShortlistRow :=
  (getBest source.db "quic" domain limit).map (fun row =>
    { label := row.strategy
      strategy := rowStrategy source "quic" row.strategy
      domainsPass := some [domain]
      latencyMs := some row.latencyMs })

def fallbackRows (domainsPass : Option (List String)) (strategies : List String) : List ShortlistRow :=
  strategies.zipIdx.map (fun p =>
    { label := "export_" ++ toString p.2
      strategy := p.1
      domainsPass := domainsPass })

/-- The payload, without its header. -/
def buildShortlistEntries (confText : List Char → Option (List Char)) (domains : List String) (limit : Int)
    (includeCommon : Bool) : Shortlist :=
  let primary := primaryOf domains
  let commonTcp := commonRows source domains limit includeCommon
  let tcp := tcpRows source primary limit
  let udp := udpRows source limit
  let quic := quicRows source primary limit
  if tcp = [] ∧ udp = [] ∧ quic = [] then
    { domains := domains
      tcp := fallbackRows (some []) (collectTcp confText source primary limit domains (1 < domains.length))
      udp := fallbackRows none (collectUdp confText source primary limit)
      quic := fallbackRows (some []) (collectQuic confText source primary limit)
      commonTcp := commonTcp }
  else ⟨domains, tcp, udp, quic, commonTcp⟩

end entries

/-! The import: shortlist_import. -/

structure UdpSeed where
  strategy : String
  target : String
  latencyMs : ℚ
  configPath : String
  deriving DecidableEq

/-- What seed_state_db logs, and how many rows. -/
structure Seeded where
  rows : List TcpEntry
  udp : List UdpSeed
  count : Nat

def seedLabel (kind : String) (count : Nat) (row : ShortlistRow) : String :=
  orElse row.label ("import_" ++ kind ++ "_" ++ toString count)

def passDomains (primary : String) (row : ShortlistRow) : List String :=
  let domains := row.domainsPass.getD []
  if domains = [] then [primary] else domains

def firstLatency (latencies : List (Option ℚ)) : ℚ := (latencies.filterMap (fun l => l.filter (· ≠ 0))).head?.getD 0

def seedRow (kind primary : String) (latency : ShortlistRow → ℚ) (state : Seeded) (row : ShortlistRow) : Seeded :=
  let label := seedLabel kind state.count row
  let strat := strip row.strategy.toList
  if strat = [] then state
  else
    { state with
      rows := state.rows ++ (passDomains primary row).map (fun dom =>
        { strategy := label
          proto := kind
          configPath := String.ofList strat
          columns :=
            { domain := dom
              status := .pass
              latencyMs := latency row
              httpCode := 200 } })
      count := state.count + (passDomains primary row).length }

def seedTcp (primary : String) : Seeded → ShortlistRow → Seeded :=
  seedRow "tcp" primary (fun row => firstLatency [row.avgLatencyMs, row.latencyMs])

def seedQuic (primary : String) : Seeded → ShortlistRow → Seeded :=
  seedRow "quic" primary (fun row => firstLatency [row.latencyMs])

def seedUdp (state : Seeded) (row : ShortlistRow) : Seeded :=
  let label := seedLabel "udp" state.count row
  let strat := strip row.strategy.toList
  if strat = [] then state
  else
    { state with
      udp := state.udp ++ [⟨label, orElse (row.target.getD "") "voice", firstLatency [row.latencyMs],
        String.ofList strat⟩]
      count := state.count + 1 }

def seeded (shortlist : Shortlist) : Seeded :=
  let primary := primaryOf shortlist.domains
  shortlist.quic.foldl (seedQuic primary)
    (shortlist.udp.foldl seedUdp (shortlist.tcp.foldl (seedTcp primary) ⟨[], [], 0⟩))

/-- The rows go to the table of TCP and QUIC results of the target, under the run that
its store opens. -/
def seedStateDb (runId : Nat) (target : Db) (shortlist : Shortlist) (markPass : Bool) : Db × Nat :=
  if !markPass then (target, 0)
  else ((seeded shortlist).rows.foldl (fun db entry => db.write runId entry) target, (seeded shortlist).count)

end Blockchecks.Shortlists
