import Blockchecks.DomainLoader
import Blockchecks.Runs
import Blockchecks.TriageTomlTrip

namespace Blockchecks.Preflight

open Regex StrategyText DomainLoader FailPhases TriageProfiles TriageRecord
open TriageTomlLines (Simple)

/-! Dicts as lists of entries. -/

section entries

variable {α : Type} {d : List (String × α)} {k j : String} {v : α}

/-- d[k] = v -/
def assign (k : String) (v : α) : List (String × α) → List (String × α)
  | [] => [(k, v)]
  | e :: d => if e.1 = k then (k, v) :: d else e :: assign k v d

def setdefault (k : String) (v : α) (d : List (String × α)) : List (String × α) :=
  if (d.lookup k).isSome then d else assign k v d

/-- row.update(...) -/
def update (d : List (String × α)) (more : List (String × α)) : List (String × α) :=
  more.foldl (fun d e => assign e.1 e.2 d) d

theorem lookup_cons_eq (e : String × α) (d : List (String × α)) (j : String) :
    (e :: d).lookup j = if j = e.1 then some e.2 else d.lookup j := by
  rw [List.lookup_cons]
  split_ifs with hj
  · rw [hj, beq_self_eq_true]
  · rw [beq_false_of_ne hj]

theorem lookup_assign (k j : String) (v : α) (d : List (String × α)) :
    (assign k v d).lookup j = if j = k then some v else d.lookup j := by
  induction d with
  | nil => exact lookup_cons_eq (k, v) [] j
  | cons e d ih =>
      rw [assign]
      by_cases he : e.1 = k
      · rw [if_pos he, lookup_cons_eq, lookup_cons_eq, he]
        split_ifs <;> rfl
      · rw [if_neg he, lookup_cons_eq, lookup_cons_eq, ih]
        by_cases hj : j = k
        · rw [if_neg (fun heq => he (heq.symm.trans hj)), if_pos hj, if_pos hj]
        · rw [if_neg hj, if_neg hj]

theorem lookup_setdefault (k j : String) (v : α) (d : List (String × α)) :
    (setdefault k v d).lookup j = if j = k then (d.lookup j).or (some v) else d.lookup j := by
  rw [setdefault]
  split_ifs with hk hj hj
  · rw [hj]
    exact (Option.or_of_isSome hk).symm
  · rfl
  · subst hj
    have hnone : d.lookup j = none := Option.not_isSome_iff_eq_none.mp hk
    rw [lookup_assign, if_pos rfl, hnone, Option.none_or]
  · rw [lookup_assign, if_neg hj]

theorem lookup_update (more d : List (String × α)) (j : String) :
    (update d more).lookup j = (more.reverse.lookup j).or (d.lookup j) := by
  induction more generalizing d with
  | nil => rfl
  | cons e more ih =>
      change (update (assign e.1 e.2 d) more).lookup j = _
      rw [ih, lookup_assign, List.reverse_cons, List.lookup_append, Option.or_assoc]
      rw [lookup_cons_eq, List.lookup_nil]
      split_ifs <;> rfl

theorem mem_assign {e : String × α} (h : e ∈ assign k v d) : e = (k, v) ∨ e ∈ d := by
  induction d with
  | nil => exact Or.inl (List.mem_singleton.mp h)
  | cons a d ih =>
      rw [assign] at h
      split_ifs at h with ha
      · exact (List.mem_cons.mp h).imp_right (List.mem_cons_of_mem a)
      · rcases List.mem_cons.mp h with rfl | h
        · exact Or.inr List.mem_cons_self
        · exact (ih h).imp_right (List.mem_cons_of_mem a)

theorem mem_setdefault {e : String × α} (h : e ∈ setdefault k v d) : e = (k, v) ∨ e ∈ d := by
  rw [setdefault] at h
  split_ifs at h
  · exact Or.inr h
  · exact mem_assign h

theorem mem_update {e : String × α} {more d : List (String × α)} (h : e ∈ update d more) : e ∈ more ∨ e ∈ d := by
  induction more generalizing d with
  | nil => exact Or.inr h
  | cons a more ih =>
      rcases ih h with he | he
      · exact Or.inl (List.mem_cons_of_mem a he)
      · rcases mem_assign he with rfl | he
        · exact Or.inl List.mem_cons_self
        · exact Or.inr he

end entries

/-! What the probes of a domain give. -/

structure TlsResult where
  success : Bool
  httpStatus : Int := 0
  error : String := ""

structure IpBlockReport where
  blockedIps : List String := []
  sniBlockLikely : Bool := false
  ipBlockOn : List String := []

/-- The address of the reference domain, and which connections succeed: its own, that of the
blocked domain to its address, and its own to the addresses of the blocked domain. -/
structure CrossTest where
  unblockedIp : String
  baseline : Bool
  blockedIps : List String
  onCleanIp : Bool
  unblockedOn : String → Bool

def runIpBlockCrossTest (t : CrossTest) : IpBlockReport :=
  if t.unblockedIp = "" then {}
  else if !t.baseline then {}
  else {
    blockedIps := t.blockedIps
    sniBlockLikely := t.onCleanIp
    ipBlockOn := (t.blockedIps.take 5).filter (fun ip => !t.unblockedOn ip) }

structure L3ProbeResult where
  ip : String
  phase : FailPhase
  tcpReachable : Bool

structure StreamTriageResult where
  phase : String
  stallAtBytes : Option Int
  readRateBps : ℚ

structure TlsProfileResult where
  clientHelloLen : Int
  isFingerprintBlocked : Bool
  profilePass : List (String × Bool)

/-- None stands for a probe that raises, or has no address. The members are those that the
class has when the stream is probed. -/
structure Probes where
  ips : List String
  tls : TlsResult
  crossTest : CrossTest
  l3 : String → L3ProbeResult
  members : List FailPhase
  stream : Option StreamTriageResult
  tlsProfile : Option TlsProfileResult
  quic : Option FailPhase

/-- A domain of the list, and what its probes give at its turn. -/
structure Check where
  domain : String
  probes : Probes

/-- A row of the comparison of the resolvers. -/
structure DnsRow where
  domain : String
  tampered : Bool
  verdict : String

structure FoolingGridResult where
  viable : List String
  failed : List (String × String)

/-- The probes that find what gets through; none stands for one that raises. No grid is live
without a function to probe with. -/
structure Diagnostics where
  hops : Option (Option Int × Option Int × Option Int)
  live : Bool
  grid : Option FoolingGridResult
  splitGrid : Option String
  blobGrid : Option (List String)
  ech : Option (Option Bool)
  http : Option Bool

/-- The report of dpi-diag as a dict: its lists have texts in them. -/
structure DpiDiagReport where
  fields : Fields
  sniWhitelist : List String
  typed : ∀ key ∈ TriageTomlLines.diagKeys,
    Value.get fields key = .none ∨ ∃ items, Value.get fields key = .strings items

structure PreflightOptions where
  skipProlog : Bool := false
  skipIpBlock : Bool := false
  skipL3Triage : Bool := false
  skipUdp16kb : Bool := false
  skipDiagnostics : Bool := true
  dpiDiag : Bool := false
  skipPersist : Bool := false
  force : Bool := false

/-! What they leave in the profile. -/

section profile

variable (classes : CharClasses) (cdnFamily : String → Option String)
variable (p : Profile) (domain : String) (isPrimary : Bool)

def setPhase (phase : FailPhase) : Profile := { p with domainPhases := assign domain phase.value p.domainPhases }

def rowOf : Fields := (p.domainReports.lookup domain).getD []

/-- _domain_report, and what is done with the row. -/
def editRow (edit : Fields → Fields) : Profile :=
  { p with domainReports := assign domain (edit (rowOf p domain)) p.domainReports }

def dnsPhase (verdict : String) : FailPhase := if verdict = "sinkhole" then .dnsSinkhole else .dnsTampered

def hasDnsPhase (r : DnsRow) : Bool := r.tampered || r.verdict ∈ ["sinkhole", "tampered"]

def applyDnsAudit (rows : List DnsRow) : Profile :=
  if rows = [] then p
  else
    (rows.filter hasDnsPhase).foldl (fun p r => setPhase p r.domain (dnsPhase r.verdict)) { p with
      dnsHijacked := rows.any DnsRow.tampered
      dnsSinkhole := rows.any (fun r => r.verdict = "sinkhole") }

def isSilentDrop (phase : FailPhase) : Bool := phase ∈ [FailPhase.tlsSilentDropAfterSni, .connectTimeout]

/-- The phase of the handshake; none when the code has none. -/
def prologPhase (tls : TlsResult) : Option FailPhase :=
  if tls.success then some .pass else classifyFailPhase classes tls.error tls.httpStatus

def applyProlog (tls : TlsResult) (phase : FailPhase) : Profile :=
  let p := editRow (setPhase p domain phase) domain (fun row => update row
    [("phase", .str phase.value), ("prolog_ok", .bool tls.success), ("rst_at_sni", .bool (phase = .tlsRstAtSni)),
      ("silent_drop", .bool (isSilentDrop phase))])
  if isPrimary then { p with
    handshakePhase := phase
    rstAtSni := phase = .tlsRstAtSni
    silentDropAfterSni := isSilentDrop phase }
  else p

def cdnHint (ips : List String) : Bool := ips.any (fun ip => (cdnFamily ip).any (· ≠ ""))

def applyIpBlock (r : IpBlockReport) : Profile :=
  let probed := r.blockedIps.take 5
  if probed = [] ∨ r.ipBlockOn = [] ∨ r.ipBlockOn.length < probed.length then p
  else if r.sniBlockLikely || cdnHint cdnFamily probed then
    editRow p domain (fun row => update row [("ip_blocked", .bool false), ("sni_block_likely", .bool true)])
  else
    let p := editRow (setPhase p domain .ipBlocked) domain (fun row => update row
      [("phase", .str FailPhase.ipBlocked.value), ("ip_blocked", .bool true),
        ("l3", .str FailPhase.ipBlocked.value)])
    if isPrimary then { p with
      unbypassableL3 := true
      l3Phase := .ipBlocked }
    else p

def l3IsLive (r : L3ProbeResult) : Bool := r.phase = .pass || r.tcpReachable

def l3Dead : List FailPhase := [.l4SynDrop, .icmpBlock, .l4RstAtSyn]

def l3IpCap : Nat := 6

/-- The loop over the addresses, with the last result. -/
def probeL3s (probe : String → L3ProbeResult) : List String → Option L3ProbeResult → Option L3ProbeResult
  | [], last => last
  | ip :: ips, _ => if l3IsLive (probe ip) then some (probe ip) else probeL3s probe ips (some (probe ip))

def firstLiveL3 (probe : String → L3ProbeResult) (ips : List String) : Option L3ProbeResult :=
  probeL3s probe (ips.take l3IpCap) none

def applyL3Live : Profile := editRow p domain (assign "l3" (.str FailPhase.pass.value))

def applyL3Dead (ips : List String) (phase : FailPhase) : Profile :=
  let p := editRow (setPhase p domain phase) domain (fun row => update row
    [("phase", .str phase.value), ("l3", .str phase.value)])
  if isPrimary && !cdnHint cdnFamily ips then { p with
    unbypassableL3 := true
    l3Phase := phase }
  else p

def triageStreamStall (members : List FailPhase) : Option StreamTriageResult → Profile
  | none => p
  | some res =>
    let phase := failPhase members (.str res.phase)
    let p := { p with domainPhases := setdefault domain phase.value p.domainPhases }
    let p := editRow p domain (setdefault "phase" (.str phase.value))
    let p := editRow p domain (fun row => update row
      ([("stall", .str phase.value)] ++
        (if phase = .tlsRstAtSni then [("rst_at_sni", .bool true)] else []) ++
        (if phase = .tlsSilentDropAfterSni then [("silent_drop", .bool true)] else [])))
    if isPrimary then { p with
      stallPhase := phase
      stallAtBytes := res.stallAtBytes
      readRateBps := res.readRateBps
      bandwidthThrottled := res.phase = "bandwidth_throttled"
      rstAtSni := p.rstAtSni || phase = .tlsRstAtSni
      silentDropAfterSni := p.silentDropAfterSni || phase = .tlsSilentDropAfterSni }
    else p

def triageTlsProfile : Option TlsProfileResult → Profile
  | none => p
  | some fp =>
    if isPrimary then { p with
      clientHelloLen := fp.clientHelloLen
      isTlsFingerprintBlocked := fp.isFingerprintBlocked
      requiresPostquantumAwareness := fp.clientHelloLen > 1400
      fingerprintPass := fp.profilePass }
    else p

def triageQuic : Option FailPhase → Profile
  | none => p
  | some phase =>
    let dropped : Bool := phase ∈ [FailPhase.quicDrop, .udpBlocked]
    let p := editRow p domain (assign "quic_drop" (.bool dropped))
    if isPrimary then { p with
      quicDrop := dropped
      udpBlocked := p.udpBlocked || phase = .udpBlocked }
    else p

def reSsl35 (text : String) : Bool :=
  let low := text.toList.map Char.toLower
  contains low "wrong_version" ||
    (contains low "ssl" && search classes (inOrder [.wordBoundary, word "35", .wordBoundary]) (String.ofList low))

/-- A grid that raises ends the others, and what came before it stays. -/
def runFoolingAndBlobGrids (d : Diagnostics) : Profile :=
  match d.grid with
  | none => p
  | some grid =>
    let p := { p with
      viableFoolings := grid.viable
      deadFoolings := (grid.failed.filter (fun e => reSsl35 classes e.2)).map Prod.fst }
    match d.splitGrid with
    | none => p
    | some mode =>
      let p := if mode = "" then p else { p with splitMode := mode }
      match d.blobGrid with
      | none => p
      | some blobs => if blobs = [] then p else { p with viableBlobs := blobs }

def runDiagnostics (d : Diagnostics) : Profile :=
  let p := match d.hops with
    | none => p
    | some (serverHops, dpiHops, autottlDelta) => { p with serverHops, dpiHops, autottlDelta }
  let p :=
    if d.live then runFoolingAndBlobGrids classes p d
    else if p.silentDropAfterSni && p.splitMode = "" then { p with splitMode := "first_byte" }
    else if p.rstAtSni && p.splitMode = "" then { p with splitMode := "sni_marker" }
    else p
  match d.ech with
  | none => p
  | some ech =>
    let p := { p with echBlocked := ech.or p.echBlocked }
    match d.http with
    | none => p
    | some http => { p with httpBlocked := some http }

/-- The phases of the domains that have none in their rows. -/
def reportPhases : Profile :=
  p.domainPhases.foldl (fun p e => editRow p e.1 (setdefault "phase" (.str e.2))) p

/-- apply_overlay, of a report that came back. -/
def applyOverlay : Option DpiDiagReport → Profile
  | none => p
  | some report => { p with
      dpiDiag := report.fields
      viableHosts := if report.sniWhitelist = [] then p.viableHosts else report.sniWhitelist }

end profile

/-! The chain of the probes. -/

section run

/-- The pins are the calls of add_pin. -/
structure Run where
  triage : Profile
  prologOk : List (String × Bool) := []
  skipDomains : List String := []
  pins : List (String × String) := []

/-- What a launch is given, and what the probes of all its domains together give. -/
structure Launch where
  opts : PreflightOptions := {}
  ref : String
  dnsRows : List DnsRow := []
  udp16kbBlocked : Bool := false
  checks : List Check
  diagnostics : String → Diagnostics
  dpiDiag : Option DpiDiagReport := none

def Launch.primary (l : Launch) : String := (l.checks.head?.map Check.domain).getD ""

variable (classes : CharClasses) (cdnFamily : String → Option String) (l : Launch)

def triageProbes (p : Profile) (c : Check) : Profile :=
  let isPrimary : Bool := c.domain = l.primary
  let p := triageStreamStall p c.domain isPrimary c.probes.members c.probes.stream
  let p := triageTlsProfile p isPrimary c.probes.tlsProfile
  triageQuic p c.domain isPrimary c.probes.quic

def triageDomain (run : Run) (c : Check) : Run :=
  match firstLiveL3 c.probes.l3 c.probes.ips with
  | none => { run with triage := triageProbes l run.triage c }
  | some picked =>
    if l3IsLive picked then { run with
      triage := triageProbes l (applyL3Live run.triage c.domain) c
      pins := run.pins ++ [(c.domain, picked.ip)] }
    else if picked.phase ∈ l3Dead then
      { run with triage := applyL3Dead cdnFamily run.triage c.domain (c.domain = l.primary) c.probes.ips picked.phase }
    else { run with triage := triageProbes l run.triage c }

def runPrologTls (run : Run) (c : Check) : Option Run :=
  if l.opts.skipProlog then some run
  else (prologPhase classes c.probes.tls).map fun phase => { run with
    triage := applyProlog run.triage c.domain (c.domain = l.primary) c.probes.tls phase
    prologOk := assign c.domain c.probes.tls.success run.prologOk
    skipDomains := if c.probes.tls.success && !l.opts.force then run.skipDomains.insert c.domain else run.skipDomains }

def runIpBlock (run : Run) (c : Check) : Run :=
  if l.opts.skipIpBlock || c.domain ∈ run.skipDomains || rstripChar '.' c.domain.toList = l.ref.toList then run
  else { run with
    triage := applyIpBlock cdnFamily run.triage c.domain (c.domain = l.primary) (runIpBlockCrossTest c.probes.crossTest) }

def runL3Triage (run : Run) (c : Check) : Run :=
  if c.domain ∈ run.skipDomains || l.opts.skipL3Triage then run else triageDomain cdnFamily l run c

/-- The turn of a domain. -/
def checkDomain (run : Run) (c : Check) : Option Run :=
  (runPrologTls classes l run c).map fun run => runL3Triage cdnFamily l (runIpBlock cdnFamily l run c) c

def startTriage (prior : Profile) : Profile :=
  let p := { prior with
    viableHosts := []
    dpiDiag := if l.opts.dpiDiag then prior.dpiDiag else [] }
  let p := applyDnsAudit p l.dnsRows
  if l.opts.skipUdp16kb then p
  else { p with
    udpBlocked := l.udp16kbBlocked
    voiceOk := !l.udp16kbBlocked }

/-- The first domain that the tests do not skip. -/
def diagDomain (run : Run) : String :=
  ((l.checks.map Check.domain).find? (fun domain => domain ∉ run.skipDomains)).getD l.primary

def finishTriage (run : Run) : Profile :=
  let p :=
    if l.opts.skipDiagnostics then run.triage
    else runDiagnostics classes run.triage (l.diagnostics (diagDomain l run))
  let p := reportPhases p
  if l.opts.dpiDiag then applyOverlay p l.dpiDiag else p

/-- run_preflight_async past the baseline; none when it raises. -/
def runPreflight (prior : Profile) : Option Run :=
  (Runs.run (checkDomain classes cdnFamily l) { triage := startTriage l prior } l.checks).map
    fun run => { run with triage := finishTriage classes l run }

end run

/-! All that a check does to the profile is a list of edits. -/

section edits

inductive Scalars where
  | blocked (phase : FailPhase)
  | handshake (phase : FailPhase)
  | stall (phase : FailPhase) (res : StreamTriageResult)
  | tlsProfile (fp : TlsProfileResult)
  | quic (phase : FailPhase)

def Scalars.set (p : Profile) : Scalars → Profile
  | blocked phase => { p with unbypassableL3 := true, l3Phase := phase }
  | handshake phase => { p with
      handshakePhase := phase
      rstAtSni := phase = .tlsRstAtSni
      silentDropAfterSni := isSilentDrop phase }
  | stall phase res => { p with
      stallPhase := phase
      stallAtBytes := res.stallAtBytes
      readRateBps := res.readRateBps
      bandwidthThrottled := res.phase = "bandwidth_throttled"
      rstAtSni := p.rstAtSni || phase = .tlsRstAtSni
      silentDropAfterSni := p.silentDropAfterSni || phase = .tlsSilentDropAfterSni }
  | tlsProfile fp => { p with
      clientHelloLen := fp.clientHelloLen
      isTlsFingerprintBlocked := fp.isFingerprintBlocked
      requiresPostquantumAwareness := fp.clientHelloLen > 1400
      fingerprintPass := fp.profilePass }
  | quic phase => { p with
      quicDrop := phase ∈ [FailPhase.quicDrop, .udpBlocked]
      udpBlocked := p.udpBlocked || phase = .udpBlocked }

inductive Edit where
  | phase (value : FailPhase)
  | orPhase (value : FailPhase)
  | row (more : Fields)
  | orRow (key : String) (value : Value)
  | scalars (s : Scalars)

def Edit.apply (domain : String) (p : Profile) : Edit → Profile
  | phase value => setPhase p domain value
  | orPhase value => { p with domainPhases := setdefault domain value.value p.domainPhases }
  | row more => editRow p domain (fun row => update row more)
  | orRow key value => editRow p domain (setdefault key value)
  | scalars s => s.set p

def applyEdits (domain : String) (p : Profile) (es : List Edit) : Profile := es.foldl (Edit.apply domain) p

variable (classes : CharClasses) (cdnFamily : String → Option String) (l : Launch) (c : Check)

def ofPrimary (isPrimary : Bool) (s : Scalars) : List Edit := if isPrimary then [.scalars s] else []

def prologEdits (isPrimary : Bool) (tls : TlsResult) (phase : FailPhase) : List Edit :=
  [.phase phase,
    .row [("phase", .str phase.value), ("prolog_ok", .bool tls.success), ("rst_at_sni", .bool (phase = .tlsRstAtSni)),
      ("silent_drop", .bool (isSilentDrop phase))]] ++
    ofPrimary isPrimary (.handshake phase)

/-- All addresses that were tested are blocked for the reference domain too. -/
def allBlocked (r : IpBlockReport) : Bool :=
  r.blockedIps.take 5 ≠ [] ∧ r.ipBlockOn ≠ [] ∧ (r.blockedIps.take 5).length ≤ r.ipBlockOn.length

/-- The block can be one of the name, or of the name at a CDN. -/
def spared (r : IpBlockReport) : Bool := r.sniBlockLikely || cdnHint cdnFamily (r.blockedIps.take 5)

def ipBlockEdits (isPrimary : Bool) (r : IpBlockReport) : List Edit :=
  if !allBlocked r then []
  else if spared cdnFamily r then [.row [("ip_blocked", .bool false), ("sni_block_likely", .bool true)]]
  else
    [.phase .ipBlocked,
      .row [("phase", .str FailPhase.ipBlocked.value), ("ip_blocked", .bool true),
        ("l3", .str FailPhase.ipBlocked.value)]] ++
      ofPrimary isPrimary (.blocked .ipBlocked)

def l3DeadEdits (isPrimary : Bool) (ips : List String) (phase : FailPhase) : List Edit :=
  [.phase phase, .row [("phase", .str phase.value), ("l3", .str phase.value)]] ++
    ofPrimary (isPrimary && !cdnHint cdnFamily ips) (.blocked phase)

def stallEdits (members : List FailPhase) (isPrimary : Bool) : Option StreamTriageResult → List Edit
  | none => []
  | some res =>
    let phase := failPhase members (.str res.phase)
    [.orPhase phase, .orRow "phase" (.str phase.value),
      .row ([("stall", .str phase.value)] ++
        (if phase = .tlsRstAtSni then [("rst_at_sni", .bool true)] else []) ++
        (if phase = .tlsSilentDropAfterSni then [("silent_drop", .bool true)] else []))] ++
      ofPrimary isPrimary (.stall phase res)

def tlsProfileEdits (isPrimary : Bool) : Option TlsProfileResult → List Edit
  | none => []
  | some fp => ofPrimary isPrimary (.tlsProfile fp)

def quicEdits (isPrimary : Bool) : Option FailPhase → List Edit
  | none => []
  | some phase =>
    [.row [("quic_drop", .bool (phase ∈ [FailPhase.quicDrop, .udpBlocked]))]] ++ ofPrimary isPrimary (.quic phase)

def probesEdits : List Edit :=
  stallEdits c.probes.members (c.domain = l.primary) c.probes.stream ++
    tlsProfileEdits (c.domain = l.primary) c.probes.tlsProfile ++
    quicEdits (c.domain = l.primary) c.probes.quic

/-- What a check does to the profile after the handshake, and the pin it makes. -/
def l3Edits : List Edit × Option String :=
  match firstLiveL3 c.probes.l3 c.probes.ips with
  | none => (probesEdits l c, none)
  | some picked =>
    if l3IsLive picked then (.row [("l3", .str FailPhase.pass.value)] :: probesEdits l c, some picked.ip)
    else if picked.phase ∈ l3Dead then
      (l3DeadEdits cdnFamily (c.domain = l.primary) c.probes.ips picked.phase, none)
    else (probesEdits l c, none)

def testsIp (skipped : Bool) : Bool :=
  !l.opts.skipIpBlock && !skipped && decide (rstripChar '.' c.domain.toList ≠ l.ref.toList)

def testsL3 (skipped : Bool) : Bool := !skipped && !l.opts.skipL3Triage

def laterEdits (skipped : Bool) : List Edit :=
  (if testsIp l c skipped then
    ipBlockEdits cdnFamily (c.domain = l.primary) (runIpBlockCrossTest c.probes.crossTest) else []) ++
  (if testsL3 l skipped then (l3Edits cdnFamily l c).1 else [])

/-- What a check does to a run. -/
structure Outcome where
  edits : List Edit
  prologOk : Option Bool
  skips : Bool
  pin : Option String

def Outcome.apply (domain : String) (o : Outcome) (run : Run) : Run where
  triage := applyEdits domain run.triage o.edits
  prologOk := o.prologOk.elim run.prologOk (fun ok => assign domain ok run.prologOk)
  skipDomains := if o.skips then run.skipDomains.insert domain else run.skipDomains
  pins := run.pins ++ (o.pin.map (fun ip => (domain, ip))).toList

def Check.skips : Bool := !l.opts.skipProlog && c.probes.tls.success && !l.opts.force

/-- It is of the launch and of the probes of the domain alone, and of whether the domain is
skipped before. -/
def outcome (skipped : Bool) : Option Outcome :=
  (if l.opts.skipProlog then some ([], none)
    else (prologPhase classes c.probes.tls).map fun phase =>
      (prologEdits (c.domain = l.primary) c.probes.tls phase, some c.probes.tls.success)).map fun prolog =>
    { edits := prolog.1 ++ laterEdits cdnFamily l c (skipped || c.skips l)
      prologOk := prolog.2
      skips := c.skips l
      pin := if testsL3 l (skipped || c.skips l) then (l3Edits cdnFamily l c).2 else none }

variable {classes cdnFamily l c}

theorem applyEdits_append (domain : String) (p : Profile) (as bs : List Edit) :
    applyEdits domain p (as ++ bs) = applyEdits domain (applyEdits domain p as) bs := List.foldl_append

theorem applyEdits_ofPrimary (domain : String) (p : Profile) (isPrimary : Bool) (s : Scalars) :
    applyEdits domain p (ofPrimary isPrimary s) = if isPrimary then s.set p else p := by
  cases isPrimary <;> rfl

theorem applyProlog_eq (p : Profile) (domain : String) (isPrimary : Bool) (tls : TlsResult) (phase : FailPhase) :
    applyProlog p domain isPrimary tls phase = applyEdits domain p (prologEdits isPrimary tls phase) := by
  cases isPrimary <;> rfl

theorem applyIpBlock_eq (p : Profile) (domain : String) (isPrimary : Bool) (r : IpBlockReport) :
    applyIpBlock cdnFamily p domain isPrimary r = applyEdits domain p (ipBlockEdits cdnFamily isPrimary r) := by
  have hall : (r.blockedIps.take 5 = [] ∨ r.ipBlockOn = [] ∨ r.ipBlockOn.length < (r.blockedIps.take 5).length) ↔
      (!allBlocked r) = true := by
    rw [allBlocked, Bool.not_eq_true', decide_eq_false_iff_not, not_and_or, not_and_or, not_not, not_not, not_le]
  simp only [applyIpBlock, ipBlockEdits, hall]
  by_cases hblocked : (!allBlocked r) = true
  · rw [if_pos hblocked, if_pos hblocked]
    rfl
  · rw [if_neg hblocked, if_neg hblocked, ← spared]
    by_cases hspared : spared cdnFamily r = true
    · rw [if_pos hspared, if_pos hspared]
      rfl
    · rw [if_neg hspared, if_neg hspared, applyEdits_append, applyEdits_ofPrimary]
      rfl

theorem applyL3Dead_eq (p : Profile) (domain : String) (isPrimary : Bool) (ips : List String) (phase : FailPhase) :
    applyL3Dead cdnFamily p domain isPrimary ips phase =
      applyEdits domain p (l3DeadEdits cdnFamily isPrimary ips phase) := by
  rw [l3DeadEdits, applyEdits_append, applyEdits_ofPrimary]
  rfl

theorem triageStreamStall_eq (p : Profile) (domain : String) (isPrimary : Bool) (members : List FailPhase)
    (stream : Option StreamTriageResult) :
    triageStreamStall p domain isPrimary members stream =
      applyEdits domain p (stallEdits members isPrimary stream) := by
  cases stream with
  | none => rfl
  | some res =>
      simp only [stallEdits]
      rw [applyEdits_append, applyEdits_ofPrimary]
      rfl

theorem triageTlsProfile_eq (p : Profile) (domain : String) (isPrimary : Bool) (fp : Option TlsProfileResult) :
    triageTlsProfile p isPrimary fp = applyEdits domain p (tlsProfileEdits isPrimary fp) := by
  cases fp with
  | none => rfl
  | some fp =>
      rw [tlsProfileEdits, applyEdits_ofPrimary]
      rfl

theorem triageQuic_eq (p : Profile) (domain : String) (isPrimary : Bool) (phase : Option FailPhase) :
    triageQuic p domain isPrimary phase = applyEdits domain p (quicEdits isPrimary phase) := by
  cases phase with
  | none => rfl
  | some phase =>
      rw [quicEdits, applyEdits_append, applyEdits_ofPrimary]
      rfl

theorem triageProbes_eq (p : Profile) : triageProbes l p c = applyEdits c.domain p (probesEdits l c) := by
  rw [probesEdits, applyEdits_append, applyEdits_append, ← triageStreamStall_eq, ← triageTlsProfile_eq,
    ← triageQuic_eq]
  rfl

theorem triageDomain_eq (run : Run) :
    triageDomain cdnFamily l run c = { run with
      triage := applyEdits c.domain run.triage (l3Edits cdnFamily l c).1
      pins := run.pins ++ ((l3Edits cdnFamily l c).2.map (fun ip => (c.domain, ip))).toList } := by
  rw [triageDomain, l3Edits]
  cases firstLiveL3 c.probes.l3 c.probes.ips with
  | none => simp [triageProbes_eq]
  | some picked =>
      by_cases hlive : l3IsLive picked = true
      · simp only [hlive, if_true, triageProbes_eq]
        rfl
      · by_cases hdead : picked.phase ∈ l3Dead
        · simp [hlive, hdead, applyL3Dead_eq]
        · simp [hlive, hdead, triageProbes_eq]

theorem runIpBlock_eq (run : Run) :
    runIpBlock cdnFamily l run c = { run with
      triage := applyEdits c.domain run.triage (if testsIp l c (c.domain ∈ run.skipDomains) then
        ipBlockEdits cdnFamily (c.domain = l.primary) (runIpBlockCrossTest c.probes.crossTest) else []) } := by
  rw [runIpBlock, testsIp, applyIpBlock_eq]
  by_cases hskip : l.opts.skipIpBlock = true
  · simp [hskip, applyEdits]
  · by_cases hin : c.domain ∈ run.skipDomains
    · simp [hin, applyEdits]
    · by_cases href : rstripChar '.' c.domain.toList = l.ref.toList
      · simp [href, applyEdits]
      · simp [hskip, hin, href]

/-- The part of a check after the handshake. -/
theorem laterChecks_eq (run : Run) :
    runL3Triage cdnFamily l (runIpBlock cdnFamily l run c) c = { run with
      triage := applyEdits c.domain run.triage (laterEdits cdnFamily l c (c.domain ∈ run.skipDomains))
      pins := run.pins ++ ((if testsL3 l (c.domain ∈ run.skipDomains) then (l3Edits cdnFamily l c).2
        else none).map (fun ip => (c.domain, ip))).toList } := by
  rw [runIpBlock_eq, runL3Triage, laterEdits, applyEdits_append, triageDomain_eq, testsL3]
  by_cases hin : c.domain ∈ run.skipDomains
  · simp [hin, applyEdits]
  · by_cases hskip : l.opts.skipL3Triage = true
    · simp [hskip, applyEdits]
    · simp [hin, hskip]

/-- A check is its outcome. -/
theorem checkDomain_eq (run : Run) :
    checkDomain classes cdnFamily l run c =
      (outcome classes cdnFamily l c (c.domain ∈ run.skipDomains)).map (fun o => o.apply c.domain run) := by
  simp only [checkDomain, laterChecks_eq]
  by_cases hskip : l.opts.skipProlog = true
  · simp [runPrologTls, outcome, Outcome.apply, Check.skips, hskip]
  · rw [runPrologTls, outcome, if_neg hskip, if_neg hskip, Option.map_map, Option.map_map, Option.map_map]
    congr 1
    funext phase
    have hskips : c.skips l = (c.probes.tls.success && !l.opts.force) := by simp [Check.skips, hskip]
    have hin : decide (c.domain ∈ (if c.probes.tls.success && !l.opts.force then
        run.skipDomains.insert c.domain else run.skipDomains)) = (decide (c.domain ∈ run.skipDomains) || c.skips l) := by
      rw [hskips]
      cases c.probes.tls.success && !l.opts.force <;> simp
    simp only [Function.comp_apply, Outcome.apply, hin, applyProlog_eq, applyEdits_append, hskips, Option.elim]

end edits

/-! What the edits of one domain are to another. -/

section views

variable {classes : CharClasses} {cdnFamily : String → Option String} {l : Launch} {c : Check}
variable {p q : Profile} {d domain : String} {own : Prop}

/-- The profile without what the diagnostics find to get through. -/
def found (p : Profile) : Profile := { p with
  viableFoolings := []
  viableBlobs := []
  splitMode := ""
  serverHops := none
  dpiHops := none
  deadFoolings := []
  autottlDelta := none
  echBlocked := none
  httpBlocked := none }

theorem phases_of_found {p q : Profile} (h : found p = found q) : p.domainPhases = q.domainPhases := by
  have hphases := congrArg Profile.domainPhases h
  exact hphases

theorem reports_of_found {p q : Profile} (h : found p = found q) : p.domainReports = q.domainReports := by
  have hreports := congrArg Profile.domainReports h
  exact hreports

/-- What the checks fill for the primary domain. -/
def scalarsOf (p : Profile) : Profile := { found p with
  domainPhases := []
  domainReports := []
  viableHosts := []
  dpiDiag := [] }

@[simp] theorem rowOf_editRow (p : Profile) (domain j : String) (edit : Fields → Fields) :
    rowOf (editRow p domain edit) j = if j = domain then edit (rowOf p domain) else rowOf p j := by
  rw [rowOf, editRow, lookup_assign]
  split_ifs
  · rfl
  · rfl

/-- Two profiles are the same in what they say of a domain. -/
structure SameView (d : String) (own : Prop) (p q : Profile) : Prop where
  phase : p.domainPhases.lookup d = q.domainPhases.lookup d
  row : rowOf p d = rowOf q d
  scalars : own → scalarsOf p = scalarsOf q

theorem scalarsOf_set (p : Profile) (s : Scalars) : scalarsOf (s.set p) = scalarsOf (s.set (scalarsOf p)) := by
  cases s <;> rfl

theorem SameView.edit (h : SameView d own p q) (domain : String) (e : Edit) :
    SameView d own (e.apply domain p) (e.apply domain q) := by
  have hrow : ∀ edit : Fields → Fields, SameView d own (editRow p domain edit) (editRow q domain edit) := by
    intro edit
    refine ⟨h.phase, ?_, h.scalars⟩
    rw [rowOf_editRow, rowOf_editRow]
    split_ifs with hd
    · rw [← hd, h.row]
    · exact h.row
  cases e with
  | phase value =>
      refine ⟨?_, h.row, h.scalars⟩
      change (assign domain value.value p.domainPhases).lookup d = (assign domain value.value q.domainPhases).lookup d
      rw [lookup_assign, lookup_assign, h.phase]
  | orPhase value =>
      refine ⟨?_, h.row, h.scalars⟩
      change (setdefault domain value.value p.domainPhases).lookup d =
        (setdefault domain value.value q.domainPhases).lookup d
      rw [lookup_setdefault, lookup_setdefault, h.phase]
  | row more => exact hrow (fun row => update row more)
  | orRow key value => exact hrow (setdefault key value)
  | scalars s =>
      refine ⟨?_, ?_, fun ho => ?_⟩
      · cases s <;> exact h.phase
      · cases s <;> exact h.row
      · change scalarsOf (s.set p) = scalarsOf (s.set q)
        rw [scalarsOf_set p, h.scalars ho, ← scalarsOf_set]

theorem SameView.edits (h : SameView d own p q) (domain : String) (es : List Edit) :
    SameView d own (applyEdits domain p es) (applyEdits domain q es) := by
  induction es generalizing p q with
  | nil => exact h
  | cons e es ih => exact ih (h.edit domain e)

/-- What an edit of a check can be: the scalars are for the primary domain, and the values in a
row are truth values and texts. -/
def Edit.Allowed (isPrimary : Bool) : Edit → Prop
  | phase _ => True
  | orPhase _ => True
  | row more => ∀ e ∈ more, Simple e.2
  | orRow _ value => Simple value
  | scalars _ => isPrimary = true

theorem SameView.edit_left (h : SameView d own p q) (hne : d ≠ domain) {isPrimary : Bool}
    (hown : own → isPrimary = false) {e : Edit} (he : e.Allowed isPrimary) :
    SameView d own (e.apply domain p) q := by
  have hrow : ∀ edit : Fields → Fields, SameView d own (editRow p domain edit) q := by
    intro edit
    refine ⟨h.phase, ?_, h.scalars⟩
    rw [rowOf_editRow, if_neg hne]
    exact h.row
  cases e with
  | phase value =>
      refine ⟨?_, h.row, h.scalars⟩
      change (assign domain value.value p.domainPhases).lookup d = _
      rw [lookup_assign, if_neg hne]
      exact h.phase
  | orPhase value =>
      refine ⟨?_, h.row, h.scalars⟩
      change (setdefault domain value.value p.domainPhases).lookup d = _
      rw [lookup_setdefault, if_neg hne]
      exact h.phase
  | row more => exact hrow (fun row => update row more)
  | orRow key value => exact hrow (setdefault key value)
  | scalars s =>
      refine ⟨?_, ?_, fun ho => ?_⟩
      · cases s <;> exact h.phase
      · cases s <;> exact h.row
      · exact absurd ((hown ho).symm.trans he) (by decide)

theorem SameView.edits_left (h : SameView d own p q) (hne : d ≠ domain) {isPrimary : Bool}
    (hown : own → isPrimary = false) {es : List Edit} (hes : ∀ e ∈ es, e.Allowed isPrimary) :
    SameView d own (applyEdits domain p es) q := by
  induction es generalizing p with
  | nil => exact h
  | cons e es ih =>
      exact ih (h.edit_left hne hown (hes e List.mem_cons_self)) fun e he => hes e (List.mem_cons_of_mem _ he)

theorem simple_str (s : String) : Simple (.str s) := Or.inr (Or.inr ⟨s, rfl⟩)

theorem simple_bool (b : Bool) : Simple (.bool b) := Or.inr (Or.inl ⟨b, rfl⟩)

theorem allowed_append {isPrimary : Bool} {as bs : List Edit} (has : ∀ e ∈ as, e.Allowed isPrimary)
    (hbs : ∀ e ∈ bs, e.Allowed isPrimary) : ∀ e ∈ as ++ bs, e.Allowed isPrimary := by
  intro e he
  exact (List.mem_append.mp he).elim (has e) (hbs e)

theorem allowed_ofPrimary (isPrimary : Bool) (s : Scalars) : ∀ e ∈ ofPrimary isPrimary s, e.Allowed isPrimary := by
  cases isPrimary with
  | false => exact fun e he => absurd he List.not_mem_nil
  | true => exact List.forall_mem_singleton.mpr rfl

theorem allowed_prologEdits (isPrimary : Bool) (tls : TlsResult) (phase : FailPhase) :
    ∀ e ∈ prologEdits isPrimary tls phase, e.Allowed isPrimary := by
  refine allowed_append ?_ (allowed_ofPrimary isPrimary _)
  simp only [Edit.Allowed, List.forall_mem_cons, List.not_mem_nil, false_implies, implies_true, simple_str, simple_bool, and_self]

theorem allowed_ipBlockEdits (isPrimary : Bool) (r : IpBlockReport) :
    ∀ e ∈ ipBlockEdits cdnFamily isPrimary r, e.Allowed isPrimary := by
  rw [ipBlockEdits]
  split_ifs
  · exact fun e he => absurd he List.not_mem_nil
  · simp only [Edit.Allowed, List.forall_mem_cons, List.not_mem_nil, false_implies, implies_true, simple_bool, and_self]
  · refine allowed_append ?_ (allowed_ofPrimary isPrimary _)
    simp only [Edit.Allowed, List.forall_mem_cons, List.not_mem_nil, false_implies, implies_true, simple_str, simple_bool, and_self]

theorem allowed_l3DeadEdits (isPrimary : Bool) (ips : List String) (phase : FailPhase) :
    ∀ e ∈ l3DeadEdits cdnFamily isPrimary ips phase, e.Allowed isPrimary := by
  refine allowed_append ?_ ?_
  · simp only [Edit.Allowed, List.forall_mem_cons, List.not_mem_nil, false_implies, implies_true, simple_str, and_self]
  · cases isPrimary with
    | false => exact fun e he => absurd he List.not_mem_nil
    | true =>
        intro e he
        have := allowed_ofPrimary _ _ e he
        cases e with
        | scalars s => rfl
        | _ => exact this

theorem allowed_probesEdits : ∀ e ∈ probesEdits l c, e.Allowed (c.domain = l.primary) := by
  refine allowed_append (allowed_append ?_ ?_) ?_
  · cases c.probes.stream with
    | none => exact fun e he => absurd he List.not_mem_nil
    | some res =>
        refine allowed_append ?_ (allowed_ofPrimary _ _)
        have hflag : ∀ (b : Prop) [Decidable b] (key : String),
            ∀ e ∈ (if b then [(key, Value.bool true)] else []), Simple e.2 := by
          intro b _ key e he
          split_ifs at he
          · rw [List.mem_singleton.mp he]
            exact simple_bool true
          · exact absurd he List.not_mem_nil
        refine List.forall_mem_cons.mpr ⟨trivial, List.forall_mem_cons.mpr ⟨simple_str _, ?_⟩⟩
        refine List.forall_mem_singleton.mpr fun e he => ?_
        rcases List.mem_append.mp he with he | he
        · rcases List.mem_append.mp he with he | he
          · rw [List.mem_singleton.mp he]
            exact simple_str _
          · exact hflag _ _ e he
        · exact hflag _ _ e he
  · cases c.probes.tlsProfile with
    | none => exact fun e he => absurd he List.not_mem_nil
    | some fp => exact allowed_ofPrimary _ _
  · cases c.probes.quic with
    | none => exact fun e he => absurd he List.not_mem_nil
    | some phase =>
        refine allowed_append ?_ (allowed_ofPrimary _ _)
        simp [Edit.Allowed, simple_bool]

theorem allowed_l3Edits : ∀ e ∈ (l3Edits cdnFamily l c).1, e.Allowed (c.domain = l.primary) := by
  rw [l3Edits]
  cases firstLiveL3 c.probes.l3 c.probes.ips with
  | none => exact allowed_probesEdits
  | some picked =>
      simp only
      split_ifs
      · refine List.forall_mem_cons.mpr ⟨?_, allowed_probesEdits⟩
        exact List.forall_mem_singleton.mpr (simple_str _)
      · exact allowed_l3DeadEdits _ _ _
      · exact allowed_probesEdits

/-- The scalars are written for the primary domain only. -/
theorem allowed_outcome {skipped : Bool} {o : Outcome} (h : outcome classes cdnFamily l c skipped = some o) :
    ∀ e ∈ o.edits, e.Allowed (c.domain = l.primary) := by
  have hlater : ∀ skipped : Bool, ∀ e ∈ laterEdits cdnFamily l c skipped, e.Allowed (c.domain = l.primary) := by
    intro skipped
    refine allowed_append ?_ ?_
    · split_ifs
      · exact allowed_ipBlockEdits _ _
      · exact fun e he => absurd he List.not_mem_nil
    · split_ifs
      · exact allowed_l3Edits
      · exact fun e he => absurd he List.not_mem_nil
  obtain ⟨prolog, hprolog, rfl⟩ := Option.map_eq_some_iff.mp h
  refine allowed_append ?_ (hlater _)
  split_ifs at hprolog
  · rw [← Option.some.inj hprolog]
    exact fun e he => absurd he List.not_mem_nil
  · obtain ⟨phase, -, rfl⟩ := Option.map_eq_some_iff.mp hprolog
    exact allowed_prologEdits _ _ _

/-- Two runs are the same in what they found of a domain. -/
structure SameFinding (d : String) (own : Prop) (s t : Run) : Prop where
  skipped : d ∈ s.skipDomains ↔ d ∈ t.skipDomains
  prologOk : s.prologOk.lookup d = t.prologOk.lookup d
  pins : s.pins.filter (fun e => e.1 = d) = t.pins.filter (fun e => e.1 = d)
  view : SameView d own s.triage t.triage

theorem SameFinding.same_check {s t s' : Run} (h : SameFinding d own s t) (hd : c.domain = d)
    (hc : checkDomain classes cdnFamily l s c = some s') :
    ∃ t', checkDomain classes cdnFamily l t c = some t' ∧ SameFinding d own s' t' := by
  subst hd
  rw [checkDomain_eq] at hc
  obtain ⟨o, ho, rfl⟩ := Option.map_eq_some_iff.mp hc
  have ho' : outcome classes cdnFamily l c (c.domain ∈ t.skipDomains) = some o := by
    rw [← ho, decide_eq_decide.mpr h.skipped]
  refine ⟨o.apply c.domain t, by rw [checkDomain_eq, ho', Option.map_some], ?_, ?_, ?_, h.view.edits c.domain o.edits⟩
  · rw [Outcome.apply, Outcome.apply]
    cases o.skips with
    | false => exact h.skipped
    | true => simp
  · rw [Outcome.apply, Outcome.apply]
    cases o.prologOk with
    | none => exact h.prologOk
    | some ok => simp [lookup_assign]
  · rw [Outcome.apply, Outcome.apply, List.filter_append, List.filter_append, h.pins]

theorem SameFinding.other_check {s t s' : Run} (h : SameFinding d (d = l.primary) s t) (hd : c.domain ≠ d)
    (hc : checkDomain classes cdnFamily l s c = some s') : SameFinding d (d = l.primary) s' t := by
  rw [checkDomain_eq] at hc
  obtain ⟨o, ho, rfl⟩ := Option.map_eq_some_iff.mp hc
  have hown : d = l.primary → decide (c.domain = l.primary) = false := by
    rintro rfl
    exact decide_eq_false hd
  refine ⟨?_, ?_, ?_, h.view.edits_left hd.symm hown (allowed_outcome ho)⟩
  · rw [Outcome.apply]
    cases o.skips with
    | false => exact h.skipped
    | true => simp [h.skipped, hd.symm]
  · rw [Outcome.apply]
    cases o.prologOk with
    | none => exact h.prologOk
    | some ok => simp [lookup_assign, hd.symm, h.prologOk]
  · rw [Outcome.apply, List.filter_append, h.pins]
    cases o.pin with
    | none => simp
    | some ip => simp [hd]

/-- Checked without the others, a domain is found the same. -/
theorem run_alone {s s' : Run} {checks : List Check}
    (h : Runs.run (checkDomain classes cdnFamily l) s checks = some s') (d : String) :
    ∃ alone, Runs.run (checkDomain classes cdnFamily l) s (checks.filter (fun c => c.domain = d)) = some alone ∧
      SameFinding d (d = l.primary) s' alone := by
  have hsame : SameFinding d (d = l.primary) s s := ⟨Iff.rfl, rfl, rfl, ⟨rfl, rfl, fun _ => rfl⟩⟩
  refine Runs.run_filter (R := SameFinding d (d = l.primary)) ?_ ?_ hsame h
  · exact fun s t c s' hR hd hc => hR.same_check hd hc
  · exact fun s t c s' hR hd hc => hR.other_check hd hc

end views

section finish

variable {classes : CharClasses} {cdnFamily : String → Option String} {l : Launch} {d : String}

theorem setdefault_setdefault (key : String) (v w : Value) (row : Fields) :
    setdefault key w (setdefault key v row) = setdefault key v row := by
  rw [setdefault, if_pos]
  rw [lookup_setdefault, if_pos rfl]
  cases row.lookup key <;> rfl

/-- The row of a domain with its phase, if there is one. -/
def shownRow (phase : Option String) (row : Fields) : Fields :=
  phase.elim row (fun value => setdefault "phase" (.str value) row)

theorem lookup_shownRow (phase : Option String) (row : Fields) :
    (shownRow phase row).lookup "phase" = (row.lookup "phase").or (phase.map .str) := by
  cases phase with
  | none => exact Option.or_none.symm
  | some value => exact (lookup_setdefault _ _ _ _).trans (if_pos rfl)

theorem reportPhases_spec (entries : List (String × String)) (p : Profile) :
    let q := entries.foldl (fun p e => editRow p e.1 (setdefault "phase" (.str e.2))) p
    q.domainPhases = p.domainPhases ∧ scalarsOf q = scalarsOf p ∧
      ∀ d, rowOf q d = shownRow (entries.lookup d) (rowOf p d) := by
  induction entries generalizing p with
  | nil => exact ⟨rfl, rfl, fun _ => rfl⟩
  | cons e entries ih =>
      obtain ⟨hphases, hscalars, hrow⟩ := ih (editRow p e.1 (setdefault "phase" (.str e.2)))
      refine ⟨hphases, hscalars, fun d => ?_⟩
      rw [List.foldl_cons, hrow d, rowOf_editRow, lookup_cons_eq]
      split_ifs with hd
      · rw [← hd]
        cases entries.lookup d with
        | none => rfl
        | some value => exact setdefault_setdefault _ _ _ _
      · rfl

theorem found_runDiagnostics (p : Profile) (diagnostics : Diagnostics) :
    found (runDiagnostics classes p diagnostics) = found p := by
  have hgrids : ∀ p, found (runFoolingAndBlobGrids classes p diagnostics) = found p := by
    intro p
    rw [runFoolingAndBlobGrids]
    cases diagnostics.grid with
    | none => rfl
    | some grid =>
        cases diagnostics.splitGrid with
        | none => rfl
        | some mode =>
            cases diagnostics.blobGrid with
            | none => simp only; split_ifs <;> rfl
            | some blobs => simp only; split_ifs <;> rfl
  have hmode : ∀ p : Profile, found (
      if diagnostics.live then runFoolingAndBlobGrids classes p diagnostics
      else if p.silentDropAfterSni && p.splitMode = "" then { p with splitMode := "first_byte" }
      else if p.rstAtSni && p.splitMode = "" then { p with splitMode := "sni_marker" }
      else p) = found p := by
    intro p
    split_ifs
    · exact hgrids p
    · rfl
    · rfl
    · rfl
  have hech : ∀ p : Profile, found (match diagnostics.ech with
      | none => p
      | some ech =>
        let p := { p with echBlocked := ech.or p.echBlocked }
        match diagnostics.http with
        | none => p
        | some http => { p with httpBlocked := some http }) = found p := by
    intro p
    cases diagnostics.ech with
    | none => rfl
    | some ech => cases diagnostics.http <;> rfl
  rw [runDiagnostics, hech, hmode]
  cases diagnostics.hops <;> rfl

/-- The end of the chain: the diagnostics first, then the rows, then dpi-diag. -/
theorem finishTriage_cases (classes : CharClasses) (l : Launch) (run : Run) :
    ∃ p, found p = found run.triage ∧ finishTriage classes l run =
    if l.opts.dpiDiag then applyOverlay (reportPhases p) l.dpiDiag else reportPhases p := by
  refine ⟨_, ?_, rfl⟩
  split_ifs
  · rfl
  · exact found_runDiagnostics _ _

/-- What comes after the checks leaves what they found, but for the phases in the rows. -/
theorem finishTriage_spec (classes : CharClasses) (l : Launch) (run : Run) :
    (finishTriage classes l run).domainPhases = run.triage.domainPhases ∧
      scalarsOf (finishTriage classes l run) = scalarsOf run.triage ∧
      ∀ d, rowOf (finishTriage classes l run) d = shownRow (run.triage.domainPhases.lookup d) (rowOf run.triage d) := by
  obtain ⟨p, hp, heq⟩ := finishTriage_cases classes l run
  have hover : finishTriage classes l run = { reportPhases p with
      viableHosts := (finishTriage classes l run).viableHosts
      dpiDiag := (finishTriage classes l run).dpiDiag } := by
    rw [heq]
    split_ifs
    · cases l.dpiDiag <;> rfl
    · rfl
  obtain ⟨hshown, hscalars, hrow⟩ := reportPhases_spec p.domainPhases p
  refine ⟨?_, ?_, fun d => ?_⟩
  · rw [hover]
    exact hshown.trans (phases_of_found hp)
  · rw [hover]
    refine hscalars.trans ?_
    rw [scalarsOf, hp]
    rfl
  · rw [hover]
    refine (hrow d).trans ?_
    rw [phases_of_found hp, rowOf, reports_of_found hp]
    rfl

/-- What a preflight says of a domain in the end is what the checks of that domain alone find:
whether it is skipped, its pin, its phase and its report, and for the primary domain the
scalars. -/
theorem domain_checked_alone {prior : Profile} {fin : Run} (h : runPreflight classes cdnFamily l prior = some fin)
    (d : String) :
    ∃ alone, Runs.run (checkDomain classes cdnFamily l) { triage := startTriage l prior }
        (l.checks.filter (fun c => c.domain = d)) = some alone ∧
      (d ∈ fin.skipDomains ↔ d ∈ alone.skipDomains) ∧
      fin.prologOk.lookup d = alone.prologOk.lookup d ∧
      fin.pins.filter (fun e => e.1 = d) = alone.pins.filter (fun e => e.1 = d) ∧
      fin.triage.domainPhases.lookup d = alone.triage.domainPhases.lookup d ∧
      rowOf fin.triage d = shownRow (alone.triage.domainPhases.lookup d) (rowOf alone.triage d) ∧
      (d = l.primary → scalarsOf fin.triage = scalarsOf alone.triage) := by
  obtain ⟨run, hrun, rfl⟩ := Option.map_eq_some_iff.mp h
  obtain ⟨alone, halone, hsame⟩ := run_alone hrun d
  obtain ⟨hphases, hscalars, hrow⟩ := finishTriage_spec classes l run
  refine ⟨alone, halone, hsame.skipped, hsame.prologOk, hsame.pins, ?_, ?_, fun hd => ?_⟩
  · rw [hphases, hsame.view.phase]
  · rw [hrow, hsame.view.phase, hsame.view.row]
  · rw [hscalars, hsame.view.scalars hd]

/-- A launch over two domains: the address of the first is dead, and the resolver lies about it;
the second works. -/
def twoDomains : Launch where
  opts := { force := true }
  ref := "ref.com"
  dnsRows := [{ domain := "a.com", tampered := true, verdict := "tampered" }]
  checks :=
    [{ domain := "a.com", probes := {
        ips := ["192.0.2.1"], tls := { success := false }, crossTest := ⟨"", false, [], false, fun _ => false⟩
        l3 := fun ip => ⟨ip, .l4SynDrop, false⟩, members := classMembers, stream := none, tlsProfile := none
        quic := none } },
      { domain := "b.com", probes := {
        ips := ["192.0.2.2"], tls := { success := true }, crossTest := ⟨"", false, [], false, fun _ => false⟩
        l3 := fun ip => ⟨ip, .pass, true⟩, members := classMembers, stream := some ⟨"data_stall_16k", some 16000, 0⟩
        tlsProfile := none, quic := some .quicDrop } }]
  diagnostics := fun _ => ⟨none, false, none, none, none, none, none⟩

def wordClasses : CharClasses := ⟨Char.isAlphanum, Char.isDigit⟩

theorem twoDomains_alone :
    ∃ fin alone, runPreflight wordClasses (fun _ => none) twoDomains {} = some fin ∧
      Runs.run (checkDomain wordClasses (fun _ => none) twoDomains) { triage := startTriage twoDomains {} }
        (twoDomains.checks.filter (fun c => c.domain = "b.com")) = some alone ∧
      rowOf fin.triage "b.com" = shownRow (alone.triage.domainPhases.lookup "b.com") (rowOf alone.triage "b.com") := by
  have hruns : ∃ fin, runPreflight wordClasses (fun _ => none) twoDomains {} = some fin := ⟨_, rfl⟩
  obtain ⟨fin, hfin⟩ := hruns
  obtain ⟨alone, halone, -, -, -, -, hrow, -⟩ := domain_checked_alone hfin "b.com"
  exact ⟨fin, alone, hfin, halone, hrow⟩

end finish

/-! The launches before, and the file they leave. -/

section history

/-- A launch, the members of the class when it loads the file, and when it saves. -/
structure Session where
  launch : Launch
  members : List FailPhase
  now : TriageToml.Stamp

def loadPriorTriage (members : List FailPhase) (file : Option (List Char)) : Profile :=
  (TriageToml.loadTriageToml members file).getD {}

/-- The text that _persist_triage writes; none if nothing is written. -/
def persistTriage (now : TriageToml.Stamp) (triage : Profile) (primary : String) : Option (List Char) := do
  let clusters ← TriageToml.clusterDomainReports triage.domainReports
  let csvPrimary ← TriageToml.clusteredPrimaryDomain clusters primary
  TriageToml.dumpTriageToml now triage csvPrimary

variable (classes : CharClasses) (cdnFamily : String → Option String)

def nextFile (file : Option (List Char)) (s : Session) : Option (List Char) :=
  match runPreflight classes cdnFamily s.launch (loadPriorTriage s.members file) with
  | none => file
  | some run =>
    if s.launch.opts.skipPersist then file else (persistTriage s.now run.triage s.launch.primary).or file

def fileAfter (sessions : List Session) : Option (List Char) := sessions.foldl (nextFile classes cdnFamily) none

variable {classes cdnFamily} {l : Launch} {p q : Profile}

/-- The profile without what the file stores. -/
def forget (p : Profile) : Profile := { found p with
  dnsHijacked := false
  dnsSinkhole := false
  rstAtSni := false
  silentDropAfterSni := false
  udpBlocked := false
  voiceOk := false
  viableHosts := []
  dpiDiag := [] }

theorem forget_edit (h : forget p = forget q) (domain : String) (e : Edit) :
    forget (e.apply domain p) = forget (e.apply domain q) := by
  have hthrough : ∀ p : Profile, forget (e.apply domain p) = forget (e.apply domain (forget p)) := by
    intro p
    cases e with
    | scalars s => cases s <;> rfl
    | _ => rfl
  rw [hthrough p, h, ← hthrough]

theorem forget_edits (h : forget p = forget q) (domain : String) (es : List Edit) :
    forget (applyEdits domain p es) = forget (applyEdits domain q es) := by
  induction es generalizing p q with
  | nil => exact h
  | cons e es ih => exact ih (forget_edit h domain e)

theorem forget_startTriage (h : forget p = forget q) : forget (startTriage l p) = forget (startTriage l q) := by
  have haudit : ∀ {p q : Profile}, forget p = forget q →
      forget (applyDnsAudit p l.dnsRows) = forget (applyDnsAudit q l.dnsRows) := by
    intro p q h
    rw [applyDnsAudit, applyDnsAudit]
    split_ifs
    · exact h
    · have hrows : ∀ (rows : List DnsRow) {p q : Profile}, forget p = forget q →
          forget (rows.foldl (fun p r => setPhase p r.domain (dnsPhase r.verdict)) p) =
            forget (rows.foldl (fun p r => setPhase p r.domain (dnsPhase r.verdict)) q) := by
        intro rows
        induction rows with
        | nil => exact fun h => h
        | cons r rows ih => exact fun h => ih (forget_edit h r.domain (.phase (dnsPhase r.verdict)))
      exact hrows _ h
  have hkept := haudit (p := { p with viableHosts := [], dpiDiag := if l.opts.dpiDiag then p.dpiDiag else [] })
    (q := { q with viableHosts := [], dpiDiag := if l.opts.dpiDiag then q.dpiDiag else [] }) h
  simp only [startTriage]
  by_cases hskip : l.opts.skipUdp16kb = true
  · rw [if_pos hskip, if_pos hskip]
    exact hkept
  · rw [if_neg hskip, if_neg hskip]
    exact hkept

theorem forget_reportPhases (h : forget p = forget q) : forget (reportPhases p) = forget (reportPhases q) := by
  have hphases : p.domainPhases = q.domainPhases := by
    have hphases := congrArg Profile.domainPhases h
    exact hphases
  rw [reportPhases, reportPhases, hphases]
  clear hphases
  generalize q.domainPhases = entries
  induction entries generalizing p q with
  | nil => exact h
  | cons e entries ih => exact ih (forget_edit h e.1 (.orRow "phase" (.str e.2)))

theorem forget_finishTriage (run : Run) :
    forget (finishTriage classes l run) = forget (reportPhases run.triage) := by
  obtain ⟨p, hp, heq⟩ := finishTriage_cases classes l run
  have hforget : forget p = forget run.triage := by
    rw [forget, hp]
    rfl
  refine Eq.trans ?_ (forget_reportPhases hforget)
  rw [heq]
  split_ifs
  · cases l.dpiDiag <;> rfl
  · rfl

def Run.forget (run : Run) : Run := { run with triage := Preflight.forget run.triage }

theorem forget_checkDomain (s t : Run) (c : Check) (h : s.forget = t.forget) :
    (checkDomain classes cdnFamily l s c).map Run.forget = (checkDomain classes cdnFamily l t c).map Run.forget := by
  obtain ⟨htriage, hok, hskip, hpins⟩ := Run.mk.inj h
  rw [checkDomain_eq, checkDomain_eq, hskip, Option.map_map, Option.map_map]
  congr 1
  funext o
  simp only [Function.comp_apply, Run.forget, Outcome.apply, hskip, hok, hpins,
    forget_edits htriage c.domain o.edits]

/-- What a preflight says apart from the stored fields depends on the profile before apart
from them. -/
theorem forget_runPreflight (classes : CharClasses) (cdnFamily : String → Option String) (l : Launch)
    (h : forget p = forget q) :
    (runPreflight classes cdnFamily l p).map Run.forget = (runPreflight classes cdnFamily l q).map Run.forget := by
  have hstart : Run.forget { triage := startTriage l p } = Run.forget { triage := startTriage l q } := by
    rw [Run.forget, Run.forget, forget_startTriage h]
  have hrun : (Runs.run (checkDomain classes cdnFamily l) _ l.checks).map Run.forget =
      (Runs.run (checkDomain classes cdnFamily l) _ l.checks).map Run.forget :=
    Runs.run_map forget_checkDomain hstart l.checks
  have hfinish : ∀ run : Run, Run.forget { run with triage := finishTriage classes l run } =
      (fun r : Run => { r with triage := forget (reportPhases r.triage) }) run.forget := by
    intro run
    have hforgotten : forget run.triage = forget (forget run.triage) := rfl
    simp only [Run.forget, forget_finishTriage, forget_reportPhases hforgotten]
  rw [runPreflight, runPreflight, Option.map_map, Option.map_map]
  have hview : Run.forget ∘ (fun run : Run => { run with triage := finishTriage classes l run }) =
      (fun r : Run => { r with triage := forget (reportPhases r.triage) }) ∘ Run.forget := funext hfinish
  rw [hview, ← Option.map_map, ← Option.map_map, hrun]

/-- What the probes put into a profile can be written to the file. -/
structure Probed (p : Profile) : Prop where
  rows : ∀ r ∈ p.domainReports, ∀ e ∈ r.2, Simple e.2
  diag : ∀ key ∈ TriageTomlLines.diagKeys,
    Value.get p.dpiDiag key = .none ∨ ∃ items, Value.get p.dpiDiag key = .strings items

theorem Probed.typed (h : Probed p) : TriageTomlLines.Typed p where
  reports := fun r hr key _ => TriageTomlTrip.simple_get (h.rows r hr) key
  diag := h.diag

theorem Probed.editRow (h : Probed p) {domain : String} {edit : Fields → Fields}
    (hedit : ∀ row : Fields, (∀ e ∈ row, Simple e.2) → ∀ e ∈ edit row, Simple e.2) :
    Probed (editRow p domain edit) := by
  refine ⟨fun r hr => ?_, h.diag⟩
  rcases mem_assign hr with rfl | hr
  · apply hedit
    intro e he
    rw [rowOf] at he
    cases hrow : p.domainReports.lookup domain with
    | none =>
        rw [hrow] at he
        exact absurd he List.not_mem_nil
    | some row =>
        rw [hrow] at he
        obtain ⟨as, bs, hp, -⟩ := List.lookup_eq_some_iff.mp hrow
        exact h.rows (domain, row) (hp ▸ List.mem_append_right _ List.mem_cons_self) e he
  · exact h.rows r hr

theorem Probed.edit (h : Probed p) (domain : String) {isPrimary : Bool} {e : Edit} (he : e.Allowed isPrimary) :
    Probed (e.apply domain p) := by
  cases e with
  | phase value => exact ⟨h.rows, h.diag⟩
  | orPhase value => exact ⟨h.rows, h.diag⟩
  | row more =>
      exact h.editRow fun row hrow e hin => (mem_update hin).elim (he e) (hrow e)
  | orRow key value =>
      refine h.editRow fun row hrow e hin => ?_
      rcases mem_setdefault hin with rfl | hin
      · exact he
      · exact hrow e hin
  | scalars s => cases s <;> exact ⟨h.rows, h.diag⟩

theorem Probed.edits (h : Probed p) {domain : String} {isPrimary : Bool} {es : List Edit}
    (hes : ∀ e ∈ es, e.Allowed isPrimary) : Probed (applyEdits domain p es) := by
  induction es generalizing p with
  | nil => exact h
  | cons e es ih =>
      exact ih (h.edit _ (hes e List.mem_cons_self)) fun e he => hes e (List.mem_cons_of_mem _ he)

theorem Probed.reportPhases (h : Probed p) : Probed (reportPhases p) := by
  rw [Preflight.reportPhases]
  generalize p.domainPhases = entries
  induction entries generalizing p with
  | nil => exact h
  | cons e entries ih =>
      have hallowed : (Edit.orRow "phase" (.str e.2)).Allowed true := simple_str e.2
      exact ih (h.edit e.1 hallowed)

theorem Probed.startTriage (h : Probed p) : Probed (startTriage l p) := by
  have haudit : ∀ {p : Profile}, Probed p → Probed (applyDnsAudit p l.dnsRows) := by
    intro p h
    rw [applyDnsAudit]
    split_ifs
    · exact h
    · have hrows : ∀ (rows : List DnsRow) {p : Profile}, Probed p →
          Probed (rows.foldl (fun p r => setPhase p r.domain (dnsPhase r.verdict)) p) := by
        intro rows
        induction rows with
        | nil => exact fun h => h
        | cons r rows ih => exact fun h => ih ⟨h.rows, h.diag⟩
      exact hrows _ ⟨h.rows, h.diag⟩
  have hkept : Probed { p with viableHosts := [], dpiDiag := if l.opts.dpiDiag then p.dpiDiag else [] } := by
    refine ⟨h.rows, ?_⟩
    cases l.opts.dpiDiag with
    | false => exact fun _ _ => Or.inl rfl
    | true => exact h.diag
  have haudited := haudit hkept
  simp only [Preflight.startTriage]
  by_cases hskip : l.opts.skipUdp16kb = true
  · rw [if_pos hskip]
    exact haudited
  · rw [if_neg hskip]
    exact ⟨haudited.rows, haudited.diag⟩

theorem probed_runPreflight (h : Probed p) {run : Run} (hrun : runPreflight classes cdnFamily l p = some run) :
    Probed run.triage := by
  obtain ⟨checked, hchecked, rfl⟩ := Option.map_eq_some_iff.mp hrun
  have hstep : ∀ (s : Run) (c : Check) (t : Run), Probed s.triage →
      checkDomain classes cdnFamily l s c = some t → Probed t.triage := by
    intro s c t hs hc
    rw [checkDomain_eq] at hc
    obtain ⟨o, ho, rfl⟩ := Option.map_eq_some_iff.mp hc
    exact hs.edits (allowed_outcome ho)
  have hprobed : Probed checked.triage :=
    Runs.run_invariant (P := fun run => Probed run.triage) hstep h.startTriage hchecked
  obtain ⟨q, hq, heq⟩ := finishTriage_cases classes l checked
  have hdiag : q.dpiDiag = checked.triage.dpiDiag := by
    have hdiag := congrArg Profile.dpiDiag hq
    exact hdiag
  have hreported : Probed (reportPhases q) :=
    Probed.reportPhases ⟨reports_of_found hq ▸ hprobed.rows, hdiag ▸ hprobed.diag⟩
  change Probed (finishTriage classes l checked)
  rw [heq]
  split_ifs
  · cases l.dpiDiag with
    | none => exact hreported
    | some report => exact ⟨hreported.rows, report.typed⟩
  · exact hreported

/-- The file is one that a launch wrote. -/
def Written (file : Option (List Char)) : Prop :=
  ∀ text, file = some text → ∃ now p top, TriageTomlLines.Typed p ∧ TriageToml.dumpTriageToml now p top = some text

theorem storedDiag_strings {key : String} (hkey : key ∈ TriageTomlLines.diagKeys) (p : Profile) :
    Value.get (TriageTomlTrip.storedDiag p) key = .none ∨
      ∃ items, Value.get (TriageTomlTrip.storedDiag p) key = .strings items := by
  rw [TriageTomlTrip.storedDiag]
  split_ifs
  · exact Or.inl rfl
  · simp only [TriageTomlLines.diagKeys, List.mem_cons, List.not_mem_nil, or_false] at hkey
    rcases hkey with rfl | rfl | rfl
    · exact Or.inr ⟨_, rfl⟩
    · exact Or.inr ⟨_, rfl⟩
    · exact Or.inr ⟨_, rfl⟩

/-- Of what a launch wrote the next one loads the stored fields. -/
theorem loaded_spec {file : Option (List Char)} (h : Written file) (members : List FailPhase) :
    forget (loadPriorTriage members file) = {} ∧ Probed (loadPriorTriage members file) := by
  have hempty : forget {} = {} ∧ Probed {} := ⟨rfl, fun r hr => absurd hr List.not_mem_nil, fun _ _ => Or.inl rfl⟩
  cases file with
  | none => exact hempty
  | some text =>
      obtain ⟨now, p, top, hp, hdump⟩ := h text rfl
      rw [TriageTomlLines.dumpTriageToml_eq hp] at hdump
      obtain rfl := Option.some.inj hdump
      rw [loadPriorTriage]
      by_cases hplain : ∀ s ∈ TriageTomlText.givenTexts p top, Toml.Plain s
      · rw [TriageTomlTrip.load_plain members now hplain]
        exact ⟨rfl, fun r hr => absurd hr List.not_mem_nil, fun key hkey => storedDiag_strings hkey p⟩
      · rw [TriageTomlTrip.load_control members now hplain]
        exact hempty

theorem written_nextFile {file : Option (List Char)} (h : Written file) (s : Session) :
    Written (nextFile classes cdnFamily file s) := by
  rw [nextFile]
  cases hrun : runPreflight classes cdnFamily s.launch (loadPriorTriage s.members file) with
  | none => exact h
  | some run =>
      simp only
      split_ifs
      · exact h
      · cases hsave : persistTriage s.now run.triage s.launch.primary with
        | none => exact h
        | some text =>
            have hprobed := probed_runPreflight (loaded_spec h s.members).2 hrun
            obtain ⟨clusters, -, hsave⟩ := Option.bind_eq_some_iff.mp hsave
            obtain ⟨csvPrimary, -, hsave⟩ := Option.bind_eq_some_iff.mp hsave
            intro text' htext
            obtain rfl : text = text' := Option.some.inj htext
            exact ⟨s.now, run.triage, csvPrimary, hprobed.typed, hsave⟩

theorem written_fileAfter (sessions : List Session) : Written (fileAfter classes cdnFamily sessions) := by
  have hfold : ∀ (sessions : List Session) (file : Option (List Char)), Written file →
      Written (sessions.foldl (nextFile classes cdnFamily) file) := by
    intro sessions
    induction sessions with
    | nil => exact fun _ h => h
    | cons s sessions ih => exact fun file h => ih _ (written_nextFile h s)
  exact hfold sessions none fun text h => absurd h (Option.some_ne_none text).symm

/-- Whatever launches came before, a preflight finds what it would find without a file, but for
the fields that the file stores. -/
theorem history_forgotten (sessions : List Session) (members : List FailPhase) (l : Launch) :
    (runPreflight classes cdnFamily l (loadPriorTriage members (fileAfter classes cdnFamily sessions))).map
        Run.forget =
      (runPreflight classes cdnFamily l {}).map Run.forget :=
  forget_runPreflight _ _ _ (loaded_spec (written_fileAfter sessions) members).1

end history

/-! Which of the phases of a domain is its verdict. -/

section verdicts

variable {classes : CharClasses} {cdnFamily : String → Option String} {l : Launch} {c : Check} {d : String}

structure Verdict where
  phase : Option String
  reported : Option Value
  unbypassable : Bool

def verdictOf (p : Profile) (d : String) : Verdict where
  phase := p.domainPhases.lookup d
  reported := (rowOf p d).lookup "phase"
  unbypassable := p.unbypassableL3

/-- What an edit of the domain does to its verdict. -/
def Edit.judge (v : Verdict) : Edit → Verdict
  | phase value => { v with phase := some value.value }
  | orPhase value => { v with phase := v.phase.or (some value.value) }
  | row more => { v with reported := (more.reverse.lookup "phase").or v.reported }
  | orRow key value => { v with reported := if key = "phase" then v.reported.or (some value) else v.reported }
  | scalars (.blocked _) => { v with unbypassable := true }
  | scalars _ => v

theorem verdictOf_edit (p : Profile) (d : String) (e : Edit) :
    verdictOf (e.apply d p) d = e.judge (verdictOf p d) := by
  cases e with
  | phase value =>
      simp only [Edit.judge, verdictOf, Edit.apply, setPhase, lookup_assign, if_true]
      rfl
  | orPhase value =>
      simp only [Edit.judge, verdictOf, Edit.apply, lookup_setdefault, if_true]
      rfl
  | row more =>
      simp only [Edit.judge, verdictOf, Edit.apply, rowOf_editRow, if_true, lookup_update]
      rfl
  | orRow key value =>
      simp only [Edit.judge, verdictOf, Edit.apply, rowOf_editRow, if_true, lookup_setdefault, eq_comm]
      rfl
  | scalars s => cases s <;> rfl

theorem verdictOf_edits (p : Profile) (d : String) (es : List Edit) :
    verdictOf (applyEdits d p es) d = es.foldl Edit.judge (verdictOf p d) := by
  induction es generalizing p with
  | nil => rfl
  | cons e es ih =>
      refine (ih _).trans ?_
      rw [verdictOf_edit]
      rfl

variable (classes cdnFamily l c)

/-- The phase of the handshake, if it is tested. -/
def handshakePhase : Option FailPhase := if l.opts.skipProlog then none else prologPhase classes c.probes.tls

def ipPhase (skipped : Bool) : Option FailPhase :=
  let r := runIpBlockCrossTest c.probes.crossTest
  if testsIp l c skipped && allBlocked r && !spared cdnFamily r then some .ipBlocked else none

/-- The phase of the address that is picked, if it is dead. -/
def deadPhase : Option FailPhase :=
  ((firstLiveL3 c.probes.l3 c.probes.ips).filter (fun r => !l3IsLive r && r.phase ∈ l3Dead)).map L3ProbeResult.phase

def l3Phase (skipped : Bool) : Option FailPhase := if testsL3 l skipped then deadPhase c else none

def streamPhase (skipped : Bool) : Option FailPhase :=
  if testsL3 l skipped && (deadPhase c).isNone then
    c.probes.stream.map (fun res => failPhase c.probes.members (.str res.phase))
  else none

/-- The last row of the audit that gives the domain a phase. -/
def auditPhase (d : String) : Option FailPhase :=
  ((l.dnsRows.filter hasDnsPhase).reverse.find? (fun r => r.domain = d)).map (fun r => dnsPhase r.verdict)

/-- The phase that the others give way to. -/
def surePhase (skipped : Bool) : Option FailPhase :=
  ((l3Phase l c skipped).or (ipPhase cdnFamily l c skipped)).or (handshakePhase classes l c)

variable {classes cdnFamily l c}

/-- A phase that is set, in place of the verdict before. -/
def Verdict.set (v : Verdict) (phase : Option FailPhase) (blocked : Bool) : Verdict where
  phase := (phase.map FailPhase.value).or v.phase
  reported := (phase.map (fun phase => .str phase.value)).or v.reported
  unbypassable := v.unbypassable || blocked

theorem judge_ofPrimary (v : Verdict) (isPrimary : Bool) (phase : FailPhase) :
    (ofPrimary isPrimary (.blocked phase)).foldl Edit.judge v =
      { v with unbypassable := v.unbypassable || isPrimary } := by
  cases isPrimary with
  | false => rw [Bool.or_false]; rfl
  | true => rw [Bool.or_true]; rfl

theorem judge_prologEdits (v : Verdict) (isPrimary : Bool) (tls : TlsResult) (phase : FailPhase) :
    (prologEdits isPrimary tls phase).foldl Edit.judge v = v.set (some phase) false := by
  rw [Verdict.set, Bool.or_false]
  cases isPrimary <;> rfl

theorem judge_ipBlockEdits (v : Verdict) (isPrimary : Bool) (r : IpBlockReport) :
    (ipBlockEdits cdnFamily isPrimary r).foldl Edit.judge v =
      v.set (if allBlocked r && !spared cdnFamily r then some .ipBlocked else none)
        (allBlocked r && !spared cdnFamily r && isPrimary) := by
  rw [ipBlockEdits]
  cases hall : allBlocked r with
  | false => simp [Verdict.set]
  | true =>
      cases hspared : spared cdnFamily r with
      | true => simp [Verdict.set, Edit.judge, lookup_cons_eq]
      | false =>
          simp only [Bool.not_true, Bool.false_eq_true, if_false, List.foldl_append, judge_ofPrimary]
          rfl

theorem judge_l3DeadEdits (v : Verdict) (isPrimary : Bool) (ips : List String) (phase : FailPhase) :
    (l3DeadEdits cdnFamily isPrimary ips phase).foldl Edit.judge v =
      v.set (some phase) (isPrimary && !cdnHint cdnFamily ips) := by
  rw [l3DeadEdits, List.foldl_append, judge_ofPrimary]
  rfl

theorem judge_probesEdits (v : Verdict) : (probesEdits l c).foldl Edit.judge v =
    let stream := c.probes.stream.map (fun res => failPhase c.probes.members (.str res.phase))
    { v with
      phase := v.phase.or (stream.map FailPhase.value)
      reported := v.reported.or (stream.map (fun phase => .str phase.value)) } := by
  have htls : ∀ v, (tlsProfileEdits (c.domain = l.primary) c.probes.tlsProfile).foldl Edit.judge v = v := by
    intro v
    cases c.probes.tlsProfile with
    | none => rfl
    | some fp => cases h : decide (c.domain = l.primary) <;> rfl
  have hquic : ∀ v, (quicEdits (c.domain = l.primary) c.probes.quic).foldl Edit.judge v = v := by
    intro v
    cases c.probes.quic with
    | none => rfl
    | some phase => cases h : decide (c.domain = l.primary) <;> rfl
  rw [probesEdits, List.foldl_append, List.foldl_append, htls, hquic]
  cases c.probes.stream with
  | none => simp [stallEdits]
  | some res =>
      have hstall : ∀ phase v, (ofPrimary (c.domain = l.primary) (.stall phase res)).foldl Edit.judge v = v := by
        intro phase v
        cases h : decide (c.domain = l.primary) <;> rfl
      simp only [stallEdits, List.foldl_append, hstall]
      -- the flags of a row are not its phase
      split_ifs <;> rfl

theorem deadPhase_of_pick {picked : L3ProbeResult} (h : firstLiveL3 c.probes.l3 c.probes.ips = some picked) :
    deadPhase c = if !l3IsLive picked && picked.phase ∈ l3Dead then some picked.phase else none := by
  rw [deadPhase, h, Option.filter]
  split_ifs <;> rfl

theorem judge_l3Edits (v : Verdict) : (l3Edits cdnFamily l c).1.foldl Edit.judge v =
    let set := v.set (deadPhase c)
      ((deadPhase c).isSome && c.domain = l.primary && !cdnHint cdnFamily c.probes.ips)
    let stream := if (deadPhase c).isNone then
      c.probes.stream.map (fun res => failPhase c.probes.members (.str res.phase)) else none
    { set with
      phase := set.phase.or (stream.map FailPhase.value)
      reported := set.reported.or (stream.map (fun phase => .str phase.value)) } := by
  cases hpick : firstLiveL3 c.probes.l3 c.probes.ips with
  | none =>
      have hphase : deadPhase c = none := by rw [deadPhase, hpick]; rfl
      have hedits : (l3Edits cdnFamily l c).1 = probesEdits l c := by rw [l3Edits, hpick]
      rw [hphase, hedits, judge_probesEdits]
      simp [Verdict.set]
  | some picked =>
      have hphase := deadPhase_of_pick hpick
      cases hlive : l3IsLive picked with
      | true =>
          have hedits : (l3Edits cdnFamily l c).1 =
              .row [("l3", .str FailPhase.pass.value)] :: probesEdits l c := by
            rw [l3Edits, hpick]
            simp [hlive]
          rw [hlive, Bool.not_true, Bool.false_and, if_neg Bool.false_ne_true] at hphase
          rw [hphase, hedits, List.foldl_cons, judge_probesEdits]
          simp [Verdict.set, Edit.judge, lookup_cons_eq]
      | false =>
          by_cases hdead : picked.phase ∈ l3Dead
          · have hedits : (l3Edits cdnFamily l c).1 =
                l3DeadEdits cdnFamily (c.domain = l.primary) c.probes.ips picked.phase := by
              rw [l3Edits, hpick]
              simp [hlive, hdead]
            rw [hlive, Bool.not_false, Bool.true_and, if_pos (decide_eq_true hdead)] at hphase
            rw [hphase, hedits, judge_l3DeadEdits]
            simp [Verdict.set]
          · have hedits : (l3Edits cdnFamily l c).1 = probesEdits l c := by
              rw [l3Edits, hpick]
              simp [hlive, hdead]
            rw [hlive, Bool.not_false, Bool.true_and, if_neg (by simpa using hdead)] at hphase
            rw [hphase, hedits, judge_probesEdits]
            simp [Verdict.set]

/-- What a check of a domain that was not skipped does to its verdict. -/
theorem judge_outcome {o : Outcome} (h : outcome classes cdnFamily l c false = some o) (v : Verdict) :
    o.edits.foldl Edit.judge v =
      let set := ((v.set (handshakePhase classes l c) false).set (ipPhase cdnFamily l c (c.skips l))
        ((ipPhase cdnFamily l c (c.skips l)).isSome && c.domain = l.primary)).set (l3Phase l c (c.skips l))
        ((l3Phase l c (c.skips l)).isSome && c.domain = l.primary && !cdnHint cdnFamily c.probes.ips)
      let stream := streamPhase l c (c.skips l)
      { set with
        phase := set.phase.or (stream.map FailPhase.value)
        reported := set.reported.or (stream.map (fun phase => .str phase.value)) } := by
  obtain ⟨prolog, hprolog, rfl⟩ := Option.map_eq_some_iff.mp h
  have hfirst : prolog.1.foldl Edit.judge v = v.set (handshakePhase classes l c) false := by
    rw [handshakePhase]
    split_ifs at hprolog ⊢ with hskip
    · rw [← Option.some.inj hprolog, Verdict.set, Bool.or_false]
      rfl
    · obtain ⟨phase, hphase, rfl⟩ := Option.map_eq_some_iff.mp hprolog
      rw [hphase, judge_prologEdits]
  have hip : ∀ v : Verdict, (if testsIp l c (c.skips l) then
      ipBlockEdits cdnFamily (c.domain = l.primary) (runIpBlockCrossTest c.probes.crossTest) else []).foldl Edit.judge v =
      v.set (ipPhase cdnFamily l c (c.skips l)) ((ipPhase cdnFamily l c (c.skips l)).isSome && c.domain = l.primary) := by
    intro v
    rw [ipPhase]
    cases testsIp l c (c.skips l) with
    | false => simp [Verdict.set]
    | true =>
        rw [if_pos rfl, judge_ipBlockEdits, Bool.true_and]
        cases allBlocked (runIpBlockCrossTest c.probes.crossTest) &&
          !spared cdnFamily (runIpBlockCrossTest c.probes.crossTest) <;> rfl
  have hl3 : ∀ v : Verdict, (if testsL3 l (c.skips l) then (l3Edits cdnFamily l c).1 else []).foldl Edit.judge v =
      let set := v.set (l3Phase l c (c.skips l))
        ((l3Phase l c (c.skips l)).isSome && c.domain = l.primary && !cdnHint cdnFamily c.probes.ips)
      { set with
        phase := set.phase.or ((streamPhase l c (c.skips l)).map FailPhase.value)
        reported := set.reported.or ((streamPhase l c (c.skips l)).map (fun phase => .str phase.value)) } := by
    intro v
    rw [l3Phase, streamPhase]
    cases testsL3 l (c.skips l) with
    | false => simp [Verdict.set]
    | true =>
        rw [if_pos rfl, if_pos rfl, Bool.true_and]
        exact judge_l3Edits v
  rw [List.foldl_append, hfirst, laterEdits, Bool.false_or, List.foldl_append, hip, hl3]

theorem verdictOf_audit (rows : List DnsRow) (p : Profile) (d : String) :
    let q := rows.foldl (fun p r => setPhase p r.domain (dnsPhase r.verdict)) p
    q.domainPhases.lookup d = ((rows.reverse.find? (fun r => r.domain = d)).map
      (fun r => (dnsPhase r.verdict).value)).or (p.domainPhases.lookup d) ∧
      q.domainReports = p.domainReports ∧ q.unbypassableL3 = p.unbypassableL3 := by
  induction rows generalizing p with
  | nil => exact ⟨rfl, rfl, rfl⟩
  | cons r rows ih =>
      obtain ⟨hphase, hreports, hblocked⟩ := ih (setPhase p r.domain (dnsPhase r.verdict))
      refine ⟨?_, hreports, hblocked⟩
      refine hphase.trans ?_
      rw [setPhase, lookup_assign, List.reverse_cons, List.find?_append]
      cases rows.reverse.find? (fun r => r.domain = d) with
      | some last => rfl
      | none =>
          rw [List.find?_singleton]
          by_cases hd : r.domain = d
          · rw [if_pos hd.symm, if_pos (decide_eq_true hd)]
            rfl
          · rw [if_neg (Ne.symm hd), if_neg (by simpa using hd)]
            rfl

/-- Before the checks the audit alone has spoken. -/
theorem verdictOf_startTriage {prior : Profile} (h : forget prior = {}) (d : String) :
    verdictOf (startTriage l prior) d = ⟨(auditPhase l d).map FailPhase.value, none, false⟩ := by
  have hphases : prior.domainPhases = [] := by
    have hphases := congrArg Profile.domainPhases h
    exact hphases
  have hreports : prior.domainReports = [] := by
    have hreports := congrArg Profile.domainReports h
    exact hreports
  have hblocked : prior.unbypassableL3 = false := by
    have hblocked := congrArg (fun p : Profile => p.unbypassableL3) h
    exact hblocked
  have haudit : ∀ p : Profile, p.domainPhases = [] → p.domainReports = [] → p.unbypassableL3 = false →
      (applyDnsAudit p l.dnsRows).domainPhases.lookup d = (auditPhase l d).map FailPhase.value ∧
        (applyDnsAudit p l.dnsRows).domainReports = [] ∧ (applyDnsAudit p l.dnsRows).unbypassableL3 = false := by
    intro p hp hr hb
    rw [applyDnsAudit, auditPhase]
    split_ifs with hrows
    · rw [hrows, hp]
      exact ⟨rfl, hr, hb⟩
    · obtain ⟨hphase, hreported, hblocks⟩ := verdictOf_audit (l.dnsRows.filter hasDnsPhase) { p with
        dnsHijacked := l.dnsRows.any DnsRow.tampered
        dnsSinkhole := l.dnsRows.any (fun r => r.verdict = "sinkhole") } d
      refine ⟨hphase.trans ?_, hreported.trans hr, hblocks.trans hb⟩
      rw [Option.map_map]
      exact (congrArg _ (congrArg (List.lookup d) hp)).trans Option.or_none
  obtain ⟨hphase, hreported, hblocks⟩ := haudit { prior with
    viableHosts := []
    dpiDiag := if l.opts.dpiDiag then prior.dpiDiag else [] } hphases hreports hblocked
  have hstart : (startTriage l prior).domainPhases.lookup d = (auditPhase l d).map FailPhase.value ∧
      (startTriage l prior).domainReports = [] ∧ (startTriage l prior).unbypassableL3 = false := by
    simp only [startTriage]
    by_cases hskip : l.opts.skipUdp16kb = true
    · rw [if_pos hskip]
      exact ⟨hphase, hreported, hblocks⟩
    · rw [if_neg hskip]
      exact ⟨hphase, hreported, hblocks⟩
  rw [verdictOf, hstart.1, rowOf, hstart.2.1, hstart.2.2]
  rfl

theorem twoDomains_runs (classes : CharClasses) (prior : Profile) (h : forget prior = {}) :
    ∃ fin, runPreflight classes (fun _ => none) twoDomains prior = some fin := by
  have hblank : forget prior = forget {} := h
  obtain ⟨fin, hfin, -⟩ := Option.map_eq_some_iff.mp
    (forget_runPreflight classes (fun _ => none) twoDomains hblank)
  exact ⟨fin, hfin⟩

def firstSession : Session := ⟨twoDomains, classMembers, TriageTomlTrip.midnight⟩

end verdicts

end Blockchecks.Preflight
