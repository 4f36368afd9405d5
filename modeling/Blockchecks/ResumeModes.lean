import Blockchecks.QuarantineReplay
import Blockchecks.ResumeSkip
import Blockchecks.RunnerComplete

namespace Blockchecks.ResumeModes

open OrderedDict StrategyText ScanWeights AdaptiveQueue AdaptiveJobQueue Quarantine DomainQuarantine
  RunStore RunLog ResumeSkip QuarantineReplay

inductive Mode where
  | adaptive | familyGates | fanout | sequentialBridge | http | quic
  deriving DecidableEq

/-- The need flags that a gate reads; zero when the family has passed. -/
structure FamilyNeedTracker where
  needHostfakesplit : Nat := 1
  needMultisplit : Nat := 1
  needFakedsplit : Nat := 1
  needFakeddisorder : Nat := 1

def skipFamily (t : FamilyNeedTracker) (family scanLevel : String) : Bool :=
  if scanLevel = "full" then false
  else decide (family = "fake_hostfake" ∧ t.needHostfakesplit = 0)

def skipStrategy (t : FamilyNeedTracker) (item : StrategyItem) (scanLevel : String) : Bool :=
  if scanLevel = "full" then false
  else
    let strat := item.strategy.toList
    decide (t.needMultisplit = 0) && (contains strat "multisplit" || contains strat "multidisorder") ||
      decide (t.needFakedsplit = 0) && contains strat "fakedsplit" ||
      decide (t.needFakeddisorder = 0) && contains strat "fakeddisorder"

/-- What a resumed run starts from: the store and its run, the arguments, and
the quarantine that an earlier phase has left in the context. The tracker is the
one of the family gates when the item's family is reached. -/
structure Session where
  db : Db
  runId : Nat
  items : List StrategyItem
  domains : List String
  reprobeFailed : Int
  quarantineFromArgs : Option QuarantineConfig
  weights : Weights
  epsilon : ℚ
  ctxQuarantine : Option DomainQuarantine
  tracker : FamilyNeedTracker
  scanLevel : String

namespace Session

variable (s : Session)

def hasRow (proto : String) (item : StrategyItem) (domain : String) : Bool :=
  s.db.hasTcpResult s.runId item.label domain proto

def seededExclude : List String :=
  match s.quarantineFromArgs with
  | some config => (seeded config s.db).excludeDomains
  | none => []

def ctxExclude : List String :=
  match s.ctxQuarantine with
  | some q => q.excludeDomains
  | none => []

def adaptiveQueue : AdaptiveJobQueue :=
  let q := build s.items s.domains s.weights s.epsilon s.seededExclude.toFinset
    (s.db.getResumeSkipTcpKeys (some s.runId) "tcp" s.reprobeFailed)
  { q with excludedDomains := q.excludedDomains ∪ s.seededExclude.toFinset }

/-- The items of one family that the gates put up for a domain. -/
def familyItems (family domain : String) : List StrategyItem :=
  if skipFamily s.tracker family s.scanLevel then []
  else (s.items.filter (fun item => classifyStrategyFamily item = family)).filter
    (fun item => !s.hasRow "tcp" item domain && !skipStrategy s.tracker item s.scanLevel)

def fanoutPending (item : StrategyItem) : List String :=
  s.domains.filter (fun d => decide (d ∉ s.ctxExclude) && !s.hasRow "tcp" item d)

def sequentialJobs : List (StrategyItem × String) :=
  (matrix s.items s.domains).filter
    (fun p => decide (p.2 ∉ s.ctxExclude) && !s.hasRow "tcp" p.1 p.2)

/-- The pairs that the HTTP or the QUIC phase does not skip. -/
def phaseJobs (proto : String) : List (StrategyItem × String) :=
  (matrix s.items s.domains).filter (fun p => !s.hasRow proto p.1 p.2)

def Scheduled (mode : Mode) (item : StrategyItem) (domain : String) : Prop :=
  match mode with
  | .adaptive => (item.label, domain) ∈ s.adaptiveQueue.pending.keys ∧
      domain ∉ s.adaptiveQueue.excludedDomains
  | .familyGates => item ∈ s.familyItems (classifyStrategyFamily item) domain
  | .fanout => domain ∈ s.fanoutPending item
  | .sequentialBridge => (item, domain) ∈ s.sequentialJobs
  | .http => (item, domain) ∈ s.phaseJobs "http"
  | .quic => (item, domain) ∈ s.phaseJobs "quic"

/-- No row of the run under a protocol. -/
def Unlogged (proto : String) (key : Key) : Prop :=
  ∀ l ∈ log s.db, l.is proto (inRun s.runId) key = false

/-- All rows of the key in the run, under whatever protocol, are skipped ones. -/
def OnlySkipped (key : Key) : Prop :=
  ∀ l ∈ log s.db, l.runId = some s.runId → l.name = key.1 → l.columns.domain = key.2 →
    l.columns.status = .skipped

/-- The rows of the domain bring it to a threshold without one that works. -/
def SeedsQuarantine (domain : String) : Prop :=
  ∃ config, s.quarantineFromArgs = some config ∧ config.enabled = true ∧ rowsOf s.db domain ≠ [] ∧
    working (rowsOf s.db domain) = 0 ∧
    (config.minAttempts ≤ (rowsOf s.db domain).length ∨
      config.dnsResolveMinAttempts ≤ dnsResolveFails (rowsOf s.db domain))

def Reprobes (mode : Mode) (item : StrategyItem) (domain : String) : Prop :=
  match mode with
  | .adaptive => ¬ s.SeedsQuarantine domain
  | .familyGates => s.Unlogged "tcp" (item.label, domain) ∧
      skipFamily s.tracker (classifyStrategyFamily item) s.scanLevel = false ∧
      skipStrategy s.tracker item s.scanLevel = false
  | .fanout | .sequentialBridge =>
      s.Unlogged "tcp" (item.label, domain) ∧ domain ∉ s.ctxExclude
  | .http => s.Unlogged "http" (item.label, domain)
  | .quic => s.Unlogged "quic" (item.label, domain)

end Session

variable {s : Session} {item : StrategyItem} {domain proto : String}

theorem hasRow_iff : s.hasRow proto item domain = false ↔ s.Unlogged proto (item.label, domain) := by
  rw [← Bool.not_eq_true, Session.hasRow, hasTcpResult_iff, not_exists]
  simp only [not_and, Bool.not_eq_true]
  rfl

theorem resumeSkip_toNat (db : Db) (runId : Nat) (proto : String) (limit : Int) :
    db.getResumeSkipTcpKeys (some runId) proto limit =
      db.getResumeSkipTcpKeys (some runId) proto (limit.toNat : Int) := by
  by_cases h : limit ≤ 0
  · rw [Db.getResumeSkipTcpKeys, Db.getResumeSkipTcpKeys, if_pos h, if_pos (by omega)]
  · rw [Int.toNat_of_nonneg (by omega)]

theorem onlySkipped_not_mem (h : s.OnlySkipped (item.label, domain)) (limit : Int) :
    (item.label, domain) ∉ s.db.getResumeSkipTcpKeys (some s.runId) "tcp" limit := by
  rw [resumeSkip_toNat, mem_getResumeSkipTcpKeys]
  rintro ⟨l, hlast, hset⟩
  obtain ⟨hmem, his⟩ := List.mem_filter.mp (List.mem_of_getLast? hlast)
  obtain ⟨_, hrun, hname, hdomain⟩ := Logged.is_iff.mp his
  have hskipped := h l hmem (of_decide_eq_true hrun) hname hdomain
  rcases hset with hworks | ⟨_, hfail, _⟩
  · rw [TcpColumns.isWorking_iff, hskipped] at hworks
    cases hworks.1
  · rw [hskipped] at hfail
    cases hfail

theorem mem_seededExclude_iff : domain ∈ s.seededExclude ↔ s.SeedsQuarantine domain := by
  rw [Session.seededExclude, Session.SeedsQuarantine]
  cases s.quarantineFromArgs with
  | none => simp
  | some config =>
      cases he : config.enabled with
      | false =>
          simp only [seeded_disabled he]
          refine iff_of_false List.not_mem_nil ?_
          rintro ⟨config', hconfig, he', _⟩
          obtain rfl := Option.some.inj hconfig
          rw [he] at he'
          cases he'
      | true =>
          simp only [seeded_mem_iff he]
          constructor
          · intro h
            exact ⟨config, rfl, he, h⟩
          · rintro ⟨config', hconfig, _, h⟩
            obtain rfl := Option.some.inj hconfig
            exact h

theorem mem_matrix (hitem : item ∈ s.items) (hdomain : domain ∈ s.domains) :
    (item, domain) ∈ matrix s.items s.domains :=
  List.mem_flatMap.mpr ⟨item, hitem, List.mem_map_of_mem hdomain⟩

theorem adaptive_scheduled_iff (hitem : item ∈ s.items) (hdomain : domain ∈ s.domains)
    (hskipped : s.OnlySkipped (item.label, domain)) :
    s.Scheduled .adaptive item domain ↔ ¬ s.SeedsQuarantine domain := by
  have hexcluded : s.adaptiveQueue.excludedDomains = s.seededExclude.toFinset := by
    rw [Session.adaptiveQueue]
    dsimp only
    rw [RunnerComplete.build_excluded, Finset.union_self]
  rw [← mem_seededExclude_iff]
  constructor
  · rintro ⟨_, hout⟩ hin
    rw [hexcluded, List.mem_toFinset] at hout
    exact hout hin
  · intro hout
    have hfree : domain ∉ s.seededExclude.toFinset := fun h => hout (List.mem_toFinset.mp h)
    exact ⟨RunnerComplete.build_pending s.items s.domains s.weights s.epsilon _ _
      (mem_matrix hitem hdomain) hfree (onlySkipped_not_mem hskipped s.reprobeFailed), hexcluded ▸ hfree⟩

theorem familyGates_scheduled_iff (hitem : item ∈ s.items) :
    s.Scheduled .familyGates item domain ↔ s.Unlogged "tcp" (item.label, domain) ∧
      skipFamily s.tracker (classifyStrategyFamily item) s.scanLevel = false ∧
      skipStrategy s.tracker item s.scanLevel = false := by
  rw [Session.Scheduled, Session.familyItems, ← hasRow_iff]
  cases hfamily : skipFamily s.tracker (classifyStrategyFamily item) s.scanLevel with
  | true => simp
  | false => simp [hitem]

/-- A pair with nothing but skipped rows is scheduled again in the adaptive mode
exactly when its domain is not quarantined from the store, and in the other
modes exactly when no row at all, not even a skipped one, stands under the
protocol that the mode asks for, the domain is not excluded and the gates let
the strategy through. -/
theorem skipped_pair_scheduled_iff (s : Session) (mode : Mode) (item : StrategyItem) (domain : String)
    (hitem : item ∈ s.items) (hdomain : domain ∈ s.domains)
    (hskipped : s.OnlySkipped (item.label, domain)) :
    s.Scheduled mode item domain ↔ s.Reprobes mode item domain := by
  have hpair := mem_matrix hitem hdomain
  cases mode with
  | adaptive => exact adaptive_scheduled_iff hitem hdomain hskipped
  | familyGates => exact familyGates_scheduled_iff hitem
  | fanout =>
      rw [Session.Scheduled, Session.fanoutPending, Session.Reprobes, ← hasRow_iff]
      simp [hdomain, and_comm]
  | sequentialBridge =>
      rw [Session.Scheduled, Session.sequentialJobs, Session.Reprobes, ← hasRow_iff]
      simp [hpair, and_comm]
  | http =>
      rw [Session.Scheduled, Session.phaseJobs, Session.Reprobes, ← hasRow_iff]
      simp [hpair]
  | quic =>
      rw [Session.Scheduled, Session.phaseJobs, Session.Reprobes, ← hasRow_iff]
      simp [hpair]

/-- A run that was stopped before its only pair. -/
def stoppedRun : Session where
  db := emptyDb.write 1 (ProbeLogger.logTcpCampaign splitItem "a.example"
    (Results.skippedResult Results.stoppedBeforeProbe splitItem "a.example") .luaBridge {})
  runId := 1
  items := [splitItem]
  domains := ["a.example"]
  reprobeFailed := 0
  quarantineFromArgs := some {}
  weights := {}
  epsilon := 0
  ctxQuarantine := none
  tracker := {}
  scanLevel := "full"

theorem stoppedRun_adaptive_scheduled :
    splitItem ∈ stoppedRun.items ∧ "a.example" ∈ stoppedRun.domains ∧
    stoppedRun.OnlySkipped (splitItem.label, "a.example") ∧
    stoppedRun.Scheduled .adaptive splitItem "a.example" := by
  have hitem : splitItem ∈ stoppedRun.items := List.mem_singleton.mpr rfl
  have hdomain : "a.example" ∈ stoppedRun.domains := List.mem_singleton.mpr rfl
  have hskipped : stoppedRun.OnlySkipped (splitItem.label, "a.example") := by
    rw [Session.OnlySkipped]
    decide +kernel
  refine ⟨hitem, hdomain, hskipped,
    (skipped_pair_scheduled_iff stoppedRun .adaptive splitItem "a.example" hitem hdomain hskipped).mpr ?_⟩
  rintro ⟨config, hconfig, _, _, _, hreached⟩
  obtain rfl := Option.some.inj hconfig
  revert hreached
  decide +kernel

theorem stoppedRun_not_scheduled : stoppedRun.OnlySkipped (splitItem.label, "a.example") ∧
    ∀ mode ∈ [Mode.familyGates, .fanout, .sequentialBridge],
      ¬ stoppedRun.Scheduled mode splitItem "a.example" := by
  constructor
  · rw [Session.OnlySkipped]
    decide +kernel
  · have hfamily : stoppedRun.familyItems (classifyStrategyFamily splitItem) "a.example" = [] := by
      decide +kernel
    have hfanout : stoppedRun.fanoutPending splitItem = [] := by decide +kernel
    have hsequential : stoppedRun.sequentialJobs = [] := by decide +kernel
    simp [Session.Scheduled, hfamily, hfanout, hsequential]

end Blockchecks.ResumeModes
