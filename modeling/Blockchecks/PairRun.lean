import Blockchecks.FamilyGates
import Blockchecks.PairMatrix

namespace Blockchecks.PairRun

open BatchService FamilyGates PairMatrix ProbeLogger ResumeModes Results RunStore Runs StrategyText

/-- An endpoint that the voice discovery has found. -/
structure VoiceEp where
  ip : String
  port : Option Int
  deriving DecidableEq

abbrev Target := String × Int

def VoiceEp.target (ep : VoiceEp) : Option Target :=
  if ep.ip = "" then none else ep.port.map (fun port => (ep.ip, port))

def targetsFrom (out : List Target) (eps : List VoiceEp) : List Target :=
  eps.foldl (fun out ep => match ep.target with
    | none => out
    | some key => if key ∈ out then out else out ++ [key]) out

def resolveVoiceTargets (voiceIp : String) (voicePort : Int) (multiEps : List VoiceEp) : List Target :=
  if targetsFrom [] multiEps = [] then [(voiceIp, voicePort)] else targetsFrom [] multiEps

def pairLogDomain (domain ip : String) (port : Int) (multi : Bool) : String :=
  if multi then domain ++ "@" ++ ip ++ ":" ++ toString port else domain

/-- The arguments of a pair run and the outcome of a probe of each item on each
domain. No caller gives a domain twice. -/
structure Plan where
  items : List StrategyItem
  udp : List StrategyItem
  primary : String
  others : List String := []
  fresh : primary ∉ others
  voiceIp : String
  voicePort : Int
  multiEps : List VoiceEp := []
  tcpOnly : Bool := false
  udpBypass : Bool := false
  useFamilyGates : Bool := false
  scanLevel : String := "fast"
  reprobeFailed : Int := 0
  fingerprint : String
  runId : Nat
  outcome : StrategyItem → String → TcpTestResult
  outcome_item : ∀ item domain, (outcome item domain).item = item

/-- What a session takes from the store when it begins: whether it is refused, the
keys that it does not probe again, the labels that work on the primary domain, and
its checkpoint. -/
structure Session where
  refused : Bool := false
  done : Finset (String × String) := ∅
  working : List String := []
  resumeFrom : Option Checkpoint := none

/-- The items of a family that are probed: up to the first that passes at the level
"single". -/
def probedOf (scanLevel : String) (passes : StrategyItem → Bool) (selected : List StrategyItem) :
    List StrategyItem :=
  if scanLevel = "single" then
    selected.takeWhile (fun item => !passes item) ++ (selected.dropWhile (fun item => !passes item)).take 1
  else selected

/-- run_tcp_with_family_gates without a stop: the items that it probes. -/
def gatedItems (scanLevel : String) (done passes : StrategyItem → Bool) (working : List String) :
    Needs → List (List StrategyItem) → List StrategyItem
  | _, [] => []
  | needs, [] :: blocks => gatedItems scanLevel done passes working needs blocks
  | needs, (item :: items) :: blocks =>
      let family := classifyStrategyFamily item
      let selected := (item :: items).filter
        (fun i => !done i && !skipStrategy needs.toFamilyNeedTracker i scanLevel)
      if skipFamily needs.toFamilyNeedTracker family scanLevel then
        gatedItems scanLevel done passes working (finishFamily needs family false) blocks
      else if selected = [] then
        let hadPass := (item :: items).any (fun i => done i && decide (i.label ∈ working))
        gatedItems scanLevel done passes working (finishFamily needs family hadPass) blocks
      else
        let probed := probedOf scanLevel passes selected
        probed ++ (if scanLevel = "single" ∧ probed.any passes then []
          else gatedItems scanLevel done passes working (finishFamily needs family (probed.any passes)) blocks)

namespace Plan

variable (p : Plan)

def passes (item : StrategyItem) : Bool := (p.outcome item p.primary).success

/-- The items whose results the TCP phase on the primary domain returns. -/
def tcpItems (session : Session) : List StrategyItem :=
  if p.useFamilyGates then
    gatedItems p.scanLevel (fun item => decide ((item.label, p.primary) ∈ session.done)) p.passes
      session.working {} (familyBlocks p.items)
  else p.items.filter (fun item => (item.label, p.primary) ∉ session.done)

def tcpResults (session : Session) : List TcpTestResult :=
  (p.tcpItems session).map (fun item => p.outcome item p.primary)

def targets : List Target := resolveVoiceTargets p.voiceIp p.voicePort p.multiEps

def logDomain (target : Target) : String :=
  pairLogDomain p.primary target.1 target.2 (decide (1 < p.targets.length))

def call (session : Session) (target : Target) : Call where
  tcpResults := p.tcpResults session
  udpStrategies := p.udp
  domain := p.primary
  voiceIp := target.1
  voicePort := target.2
  udpBypass := p.udpBypass
  resumeFrom := session.resumeFrom
  fingerprint := p.fingerprint
  pairDomain := if 1 < p.targets.length then some (p.logDomain target) else none

/-- The endpoints of the pair matrix. -/
def pairTargets : List Target := if p.tcpOnly || p.udp.isEmpty then [] else p.targets

/-- A session without --resume, or with it. -/
def begin (resume : Bool) (db : Db) (store : PairStore) : Session :=
  if resume then
    { refused := store.latestCheckpoint.any (fun cp => fingerprintMismatch cp.fingerprint p.fingerprint)
      done := db.getResumeSkipTcpKeys (some p.runId) "tcp" p.reprobeFailed
      working := db.getWorkingTcp p.primary
      resumeFrom := store.latestCheckpoint }
  else {}

/-- The row of a probe, which the bridge or the oneshot backend logs. -/
def entry (item : StrategyItem) (domain : String) (dns : DnsMeta) : TcpEntry :=
  logTcpCampaign item domain (p.outcome item domain) (if p.useFamilyGates then .oneshot else .luaBridge) dns

end Plan

/-- In the TCP phase of a domain, in the matrix of a target, or at the end. -/
inductive Stage where
  | tcp (domain : String) (left : List String)
  | pairs (target : Target) (left : List Target)
  | ended
  deriving DecidableEq

/-- The store's rows of the TCP results, the pair matrix with the rest of the store,
the domains whose TCP phase has begun, and the pairs of the matrices before. -/
structure State where
  db : Db
  matrix : PairMatrix.State
  stage : Stage
  begun : List String
  earlier : List (Target × Task) := []

/-- A row of the TCP phase reaches the store at any time after its phase has begun. -/
inductive Action where
  | log (item : StrategyItem) (domain : String) (dns : DnsMeta)
  | pair (a : PairMatrix.Action)
  | next

def idle (store : Option PairStore) : PairMatrix.State := { completed := ∅, waiting := [], store }

namespace State

variable (s : State)

/-- The probed pairs of the matrix, with its target. -/
def current : List (Target × Task) :=
  match s.stage with
  | .pairs target _ => s.matrix.probed.map (fun t => (target, t))
  | .tcp _ _ | .ended => []

def probed : List (Target × Task) := s.earlier ++ s.current

/-- The matrix is left, and the run is at a domain or at the end. -/
def nextDomain : List String → State
  | [] => { s with matrix := idle s.matrix.store, stage := .ended, earlier := s.probed }
  | domain :: left => { s with
      matrix := idle s.matrix.store, stage := .tcp domain left, begun := s.begun ++ [domain],
      earlier := s.probed }

def nextTarget (p : Plan) (session : Session) : List Target → State
  | [] => s.nextDomain p.others
  | target :: left => { s with
      matrix := PairMatrix.start (p.call session target) s.matrix.store true, stage := .pairs target left,
      earlier := s.probed }

end State

def start (p : Plan) (session : Session) (db : Db) (store : PairStore) : State where
  db := db
  matrix := idle (some store)
  stage := if session.refused then .ended else .tcp p.primary p.others
  begun := if session.refused then [] else [p.primary]

/-- The items whose rows the TCP phase of a domain may log. -/
def logs (p : Plan) (session : Session) (domain : String) : List StrategyItem :=
  if domain = p.primary then p.tcpItems session else p.items

def step (p : Plan) (session : Session) (poolSize : Nat) (s : State) : Action → Option State
  | .log item domain dns =>
      if domain ∈ s.begun ∧ item ∈ logs p session domain then
        some { s with db := s.db.write p.runId (p.entry item domain dns) }
      else none
  | .pair a => match s.stage with
    | .pairs target _ =>
        (PairMatrix.step poolSize (p.call session target) s.matrix a).map (fun m => { s with matrix := m })
    | .tcp _ _ | .ended => none
  | .next => match s.stage with
    | .tcp domain left =>
        some (if domain = p.primary then s.nextTarget p session p.pairTargets else s.nextDomain left)
    | .pairs _ left => if s.matrix.finished then some (s.nextTarget p session left) else none
    | .ended => none

end Blockchecks.PairRun
