import Blockchecks.FailPhases
import Blockchecks.OrderedDict

namespace Blockchecks.Quarantine

open FailPhases OrderedDict

structure DomainStats where
  attempts : Nat := 0
  passed : Nat := 0
  dnsResolveAttempts : Nat := 0
  deriving DecidableEq

structure QuarantineConfig where
  enabled : Bool := true
  minAttempts : Nat := 300
  dnsResolveMinAttempts : Nat := 50
  autoDenylist : Bool := false
  deriving DecidableEq

structure QuarantineInfo where
  domain : String
  attempts : Nat
  passed : Nat
  failed : Nat
  reason : String
  deriving DecidableEq

structure DomainQuarantine where
  config : QuarantineConfig
  stats : Dict String DomainStats
  quarantined : Dict String QuarantineInfo

/-- A row of a bulk query: domain, counter and number of passes. -/
abbrev Row := String × Int × Int

inductive Call where
  | record (domain : String) (passed : Bool) (status : Option String) (failPhase error : String)
  | seedFromRows (rows : List Row)
  | seedDnsResolveFromRows (rows : List Row)
  deriving DecidableEq

def fresh (config : QuarantineConfig) : DomainQuarantine := ⟨config, Dict.empty, Dict.empty⟩

/-- The two failure counters, each with a threshold of its own. -/
inductive Counter where
  | attempts
  | dnsResolve
  deriving DecidableEq

namespace Counter

def count : Counter → DomainStats → Nat
  | .attempts, st => st.attempts
  | .dnsResolve, st => st.dnsResolveAttempts

def setCount : Counter → DomainStats → Nat → DomainStats
  | .attempts, st, n => { st with attempts := n }
  | .dnsResolve, st, n => { st with dnsResolveAttempts := n }

def threshold : Counter → QuarantineConfig → Nat
  | .attempts, config => config.minAttempts
  | .dnsResolve, config => config.dnsResolveMinAttempts

def reason : Counter → DomainStats → String
  | .attempts, st => "0 PASS in " ++ toString st.attempts ++ " attempts"
  | .dnsResolve, st => toString st.dnsResolveAttempts ++ " dns_resolve failures (no pin)"

end Counter

namespace DomainQuarantine

def statsOf (q : DomainQuarantine) (domain : String) : DomainStats := (q.stats.get? domain).getD {}

def excludeDomains (q : DomainQuarantine) : List String := q.quarantined.keys

def mark (q : DomainQuarantine) (counter : Counter) (domain : String) (st : DomainStats) :
    DomainQuarantine :=
  let info : QuarantineInfo :=
    { domain := domain, attempts := st.attempts, passed := st.passed, failed := counter.count st,
      reason := counter.reason st }
  { q with quarantined := q.quarantined.set domain info }

/-- Store the counters of a domain. It is quarantined when it never passed and
the counter has reached its threshold. -/
def weigh (q : DomainQuarantine) (counter : Counter) (domain : String) (st : DomainStats) :
    Option String × DomainQuarantine :=
  let q := { q with stats := q.stats.set domain st }
  if domain ∉ q.excludeDomains ∧ counter.threshold q.config ≤ counter.count st ∧ st.passed = 0 then
    (some domain, q.mark counter domain st)
  else (none, q)

def seedRow (counter : Counter) (q : DomainQuarantine) (row : Row) :
    Option String × DomainQuarantine :=
  let st := q.statsOf row.1
  let st := counter.setCount st (max (counter.count st) row.2.1.toNat)
  q.weigh counter row.1 { st with passed := max st.passed row.2.2.toNat }

def seedLoop (counter : Counter) : DomainQuarantine → List Row → List String × DomainQuarantine
  | q, [] => ([], q)
  | q, row :: rows =>
      let (newly, q) := q.seedRow counter row
      let (rest, q) := seedLoop counter q rows
      (newly.toList ++ rest, q)

def seed (counter : Counter) (q : DomainQuarantine) (rows : List Row) :
    List String × DomainQuarantine :=
  if !q.config.enabled then ([], q) else seedLoop counter q rows

def seedFromRows (q : DomainQuarantine) (rows : List Row) : List String × DomainQuarantine :=
  q.seed .attempts rows

def seedDnsResolveFromRows (q : DomainQuarantine) (rows : List Row) :
    List String × DomainQuarantine :=
  q.seed .dnsResolve rows

def workingProbeStatuses : List String := ["PASS", "THROTTLED"]

def countsPass (passed : Bool) : Option String → Bool
  | some status => decide (status ∈ workingProbeStatuses)
  | none => passed

def recordPass (q : DomainQuarantine) (domain : String) : DomainQuarantine :=
  let st := q.statsOf domain
  let st := { st with attempts := st.attempts + 1, passed := st.passed + 1 }
  { q with stats := q.stats.set domain st }

def recordFail (q : DomainQuarantine) (counter : Counter) (domain : String) :
    Option String × DomainQuarantine :=
  let st := q.statsOf domain
  q.weigh counter domain (counter.setCount st (counter.count st + 1))

def record (q : DomainQuarantine) (domain : String) (passed : Bool) (status : Option String)
    (failPhase error : String) : Option String × DomainQuarantine :=
  if !q.config.enabled ∨ domain ∈ q.excludeDomains then (none, q)
  else if countsPass passed status then (none, q.recordPass domain)
  else if failPhase = FailPhase.dnsResolve.value then q.recordFail .dnsResolve domain
  else if isInfraFailPhase failPhase error then (none, q)
  else q.recordFail .attempts domain

/-- One call: the domains it returns as newly quarantined, and the state after it. -/
def call (q : DomainQuarantine) : Call → List String × DomainQuarantine
  | .record domain passed status failPhase error =>
      let (newly, q) := q.record domain passed status failPhase error
      (newly.toList, q)
  | .seedFromRows rows => q.seedFromRows rows
  | .seedDnsResolveFromRows rows => q.seedDnsResolveFromRows rows

def calls : DomainQuarantine → List Call → List String × DomainQuarantine
  | q, [] => ([], q)
  | q, c :: cs =>
      let (newly, q) := q.call c
      let (rest, q) := calls q cs
      (newly ++ rest, q)

end DomainQuarantine

end Blockchecks.Quarantine
