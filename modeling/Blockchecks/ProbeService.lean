import Blockchecks.FailPhases
import Blockchecks.Results
import Blockchecks.RunControl
import Blockchecks.StoreViews

namespace Blockchecks.ProbeService

open FailPhases Regex Results RunControl RunStore StoreViews StrategyText

structure ProbeRequest where
  domains : List String
  strategies : List String
  protocol : String := "tls12"

structure ProbeResult where
  domain : String
  strategyId : String
  status : Status
  failPhase : String
  latencyMs : ℚ
  httpCode : Int
  fingerprintMatched : Bool
  error : String
  deriving DecidableEq

inductive Envelope where
  | busy (activeRun : String)
  | ok (results : List ProbeResult)
  deriving DecidableEq

/-- What a probe can raise: the reading of the lock, or a code without a phase. -/
inductive Raised where
  | lock (error : RunControl.Error)
  | invalidPhase
  deriving DecidableEq

/-- How the runner ends one probe. -/
structure Outcome where
  success : Bool := false
  throttled : Bool := false
  httpCode : Int := 0
  error : String := ""
  latencyMs : ℚ := 0
  contentValid : Bool := true

def Outcome.result (o : Outcome) (item : StrategyItem) (domain : String) : TcpTestResult where
  item := item
  domain := domain
  success := o.success
  throttled := o.throttled
  httpCode := o.httpCode
  error := o.error
  latencyMs := o.latencyMs
  contentValid := o.contentValid

/-- The name of a competing campaign; the service itself holds the lock as serve. -/
def activeRun (info : Option ActiveRunInfo) : Option String :=
  info.bind (fun info =>
    let cmd := String.ofList (strip info.command.toList)
    if cmd = "serve" then none
    else some (if cmd = "" then "pid_" ++ toString info.pid else cmd))

def strategyKeys (request : ProbeRequest) : List String :=
  addAll [] ((request.strategies.map (fun s => String.ofList (strip s.toList))).filter (· ≠ ""))

def strategyLabel (key : String) : String :=
  String.ofList ((key.toList.take 60).map (fun c => if c = ' ' then '_' else c))

def items (request : ProbeRequest) : List StrategyItem :=
  (strategyKeys request).map (fun key => ⟨strategyLabel key, key, false, request.protocol⟩)

/-- The probes of a request in the order of its loops. -/
def probes (request : ProbeRequest) : List (String × StrategyItem) :=
  request.domains.flatMap (fun domain =>
    ((items request).filter (fun item => item.protocol = request.protocol)).map (domain, ·))

section classes

variable (classes : CharClasses)

/-- The phase is looked up for a success as well. -/
def fromTcpResult (r : TcpTestResult) : Option ProbeResult :=
  (classifyFailPhase classes r.error r.httpCode).map (fun phase =>
    { domain := r.domain
      strategyId := r.item.label
      status := if r.success then .pass else if r.throttled then .throttled else .fail
      failPhase := if r.success then "" else phase.value
      latencyMs := round1 r.latencyMs
      httpCode := r.httpCode
      fingerprintMatched := r.contentValid && decide (r.httpCode ≠ 0)
      error := String.ofList (r.error.toList.take 200) })

/-- The runner gives its n-th outcome to the n-th probe. -/
def probeItems (run : Nat → Outcome) : Nat → List (String × StrategyItem) → Option (List ProbeResult)
  | _, [] => some []
  | n, (domain, item) :: rest => do
      let result ← fromTcpResult classes ((run n).result item domain)
      let results ← probeItems run (n + 1) rest
      return result :: results

/-- The first parameter is what the lock of a run tells. -/
def probe (active : Except RunControl.Error (Option ActiveRunInfo)) (run : Nat → Outcome)
    (request : ProbeRequest) : Except Raised Envelope :=
  match active with
  | .error error => .error (.lock error)
  | .ok info => match activeRun info with
    | some campaign => .ok (.busy campaign)
    | none =>
        if items request = [] ∨ request.domains = [] then .ok (.ok [])
        else match probeItems classes run 0 (probes request) with
          | some results => .ok (.ok results)
          | none => .error .invalidPhase

end classes

/-- The outcomes that can be classified: a failure with a text, or a code that
stands for a pass or is named by a phase. -/
def Outcome.HasPhase (o : Outcome) : Prop :=
  o.error ≠ "" ∨ o.httpCode ∈ passHttp ∨ o.httpCode = 0 ∨ (300 ≤ o.httpCode ∧ o.httpCode ≤ 599)

/-- One result for each domain and distinct strategy in the order of the
request, and each of them made of its own outcome. -/
structure Delivered (classes : CharClasses) (request : ProbeRequest) (run : Nat → Outcome)
    (results : List ProbeResult) : Prop where
  pairs : results.map (fun r => (r.domain, r.strategyId)) =
    request.domains.flatMap (fun domain => (strategyKeys request).map (fun key => (domain, strategyLabel key)))
  outcomes : List.Forall₂ (fun p r => fromTcpResult classes ((run p.2).result p.1.2 p.1.1) = some r)
    ((probes request).zipIdx) results

variable {classes : CharClasses} {run : Nat → Outcome} {request : ProbeRequest}

/-- The keys are the distinct strategies that are not blank. -/
theorem strategyKeys_spec (request : ProbeRequest) : (strategyKeys request).Nodup ∧
    ∀ key, key ∈ strategyKeys request ↔
      key ≠ "" ∧ ∃ s ∈ request.strategies, String.ofList (strip s.toList) = key := by
  refine ⟨nodup_addAll List.nodup_nil _, fun key => ?_⟩
  rw [strategyKeys, mem_addAll, List.mem_filter, decide_eq_true_eq, List.mem_map]
  simp only [List.not_mem_nil, false_or]
  exact and_comm

theorem classifyFailPhase_isSome (o : Outcome) :
    (classifyFailPhase classes o.error o.httpCode).isSome = true ↔ o.HasPhase := by
  rw [classifyFailPhase, Outcome.HasPhase]
  by_cases herror : o.error = ""
  · rw [if_pos herror]
    by_cases hpass : o.httpCode ∈ passHttp
    · rw [if_pos hpass]
      exact iff_of_true rfl (Or.inr (Or.inl hpass))
    · rw [if_neg hpass]
      by_cases hzero : o.httpCode = 0
      · rw [if_neg (not_not.mpr hzero)]
        exact iff_of_true rfl (Or.inr (Or.inr (Or.inl hzero)))
      · rw [if_pos hzero, httpPhase, Option.isSome_ite]
        refine ⟨fun h => Or.inr (Or.inr (Or.inr h)), ?_⟩
        rintro (h | h | h | h)
        · exact absurd herror h
        · exact absurd h hpass
        · exact absurd h hzero
        · exact h
  · rw [if_neg herror]
    exact iff_of_true rfl (Or.inl herror)

theorem fromTcpResult_spec {o : Outcome} {item : StrategyItem} {domain : String} :
    (o.HasPhase → ∃ r, fromTcpResult classes (o.result item domain) = some r ∧ r.domain = domain ∧
      r.strategyId = item.label) ∧
    (¬ o.HasPhase → fromTcpResult classes (o.result item domain) = none) := by
  have hsome : (classifyFailPhase classes o.error o.httpCode).isSome = true ↔ o.HasPhase := classifyFailPhase_isSome o
  rw [fromTcpResult]
  constructor
  · intro h
    obtain ⟨phase, hphase⟩ := Option.isSome_iff_exists.mp (hsome.mpr h)
    exact ⟨_, Option.map_eq_some_iff.mpr ⟨phase, hphase, rfl⟩, rfl, rfl⟩
  · intro h
    exact Option.map_eq_none_iff.mpr (Option.not_isSome_iff_eq_none.mp (fun his => h (hsome.mp his)))

/-- The loop ends with all results, or raises at the first outcome without a phase. -/
theorem probeItems_spec (pairs : List (String × StrategyItem)) (n : Nat) :
    ((∀ k < pairs.length, (run (n + k)).HasPhase) → ∃ results, probeItems classes run n pairs = some results ∧
      results.map (fun r => (r.domain, r.strategyId)) = pairs.map (fun p => (p.1, p.2.label)) ∧
      List.Forall₂ (fun p r => fromTcpResult classes ((run p.2).result p.1.2 p.1.1) = some r)
        (pairs.zipIdx n) results) ∧
    ((∃ k < pairs.length, ¬ (run (n + k)).HasPhase) → probeItems classes run n pairs = none) := by
  induction pairs generalizing n with
  | nil =>
      refine ⟨fun _ => ⟨[], rfl, rfl, List.Forall₂.nil⟩, ?_⟩
      rintro ⟨k, hk, _⟩
      exact absurd hk (Nat.not_lt_zero k)
  | cons pair pairs ih =>
      obtain ⟨domain, item⟩ := pair
      obtain ⟨hall, hsome⟩ := ih (n + 1)
      obtain ⟨hphase, hnone⟩ := @fromTcpResult_spec classes (run n) item domain
      constructor
      · intro h
        obtain ⟨r, hr, hdomain, hlabel⟩ := hphase (h 0 (Nat.zero_lt_succ _))
        obtain ⟨results, hresults, hmap, hforall⟩ := hall (fun k hk => by
          have hk := h (k + 1) (Nat.succ_lt_succ hk)
          rwa [Nat.add_comm k 1, ← Nat.add_assoc] at hk)
        refine ⟨r :: results, ?_, ?_, ?_⟩
        · rw [probeItems, hr, Option.bind_eq_bind, Option.bind_some, hresults]
          rfl
        · rw [List.map_cons, hmap, hdomain, hlabel, List.map_cons]
        · exact List.Forall₂.cons hr hforall
      · rintro ⟨k, hk, hno⟩
        by_cases hfirst : (run n).HasPhase
        · obtain ⟨r, hr, -⟩ := hphase hfirst
          cases k with
          | zero => exact absurd hfirst hno
          | succ k =>
              have hrest := hsome ⟨k, Nat.lt_of_succ_lt_succ hk, by rwa [Nat.add_assoc, Nat.add_comm 1 k]⟩
              rw [probeItems, hr, Option.bind_eq_bind, Option.bind_some, hrest]
              rfl
        · rw [probeItems, hnone hfirst]
          rfl

theorem probes_eq (request : ProbeRequest) : probes request =
    request.domains.flatMap (fun domain => (items request).map (domain, ·)) := by
  have hall : (items request).filter (fun item => item.protocol = request.protocol) = items request := by
    refine List.filter_eq_self.mpr (fun item hitem => ?_)
    obtain ⟨key, -, rfl⟩ := List.mem_map.mp hitem
    exact decide_eq_true rfl
  rw [probes, hall]

theorem probes_pairs (request : ProbeRequest) : (probes request).map (fun p => (p.1, p.2.label)) =
    request.domains.flatMap (fun domain => (strategyKeys request).map (fun key => (domain, strategyLabel key))) := by
  rw [probes_eq, List.map_flatMap]
  simp only [items, List.map_map, Function.comp_def]

theorem probes_eq_nil (h : items request = [] ∨ request.domains = []) : probes request = [] := by
  rw [probes_eq]
  rcases h with h | h
  · rw [h]
    exact List.flatMap_eq_nil_iff.mpr (fun _ _ => rfl)
  · rw [h]
    rfl

theorem probe_of_free {info : Option ActiveRunInfo} (hfree : activeRun info = none) :
    probe classes (.ok info) run request =
      match probeItems classes run 0 (probes request) with
      | some results => .ok (.ok results)
      | none => .error .invalidPhase := by
  dsimp only [probe]
  rw [hfree]
  by_cases hempty : items request = [] ∨ request.domains = []
  · rw [probes_eq_nil hempty]
    exact if_pos hempty
  · exact if_neg hempty

/-- The batch is delivered exactly when no campaign holds the lock and every
outcome of its probes has a phase. -/
theorem delivered_iff (classes : CharClasses) (active : Except RunControl.Error (Option ActiveRunInfo))
    (run : Nat → Outcome) (request : ProbeRequest) :
    (∃ results, probe classes active run request = .ok (.ok results) ∧
        Delivered classes request run results) ↔
      (∃ info, active = .ok info ∧ activeRun info = none) ∧
        ∀ n < (probes request).length, (run n).HasPhase := by
  obtain ⟨hall, hsome⟩ := @probeItems_spec classes run (probes request) 0
  simp only [Nat.zero_add] at hall hsome
  constructor
  · rintro ⟨results, h, -⟩
    cases active with
    | error error => cases h
    | ok info =>
        cases hfree : activeRun info with
        | some campaign =>
            dsimp only [probe] at h
            rw [hfree] at h
            cases h
        | none =>
            refine ⟨⟨info, rfl, hfree⟩, ?_⟩
            by_contra hno
            push Not at hno
            rw [probe_of_free hfree, hsome hno] at h
            cases h
  · rintro ⟨⟨info, rfl, hfree⟩, hphases⟩
    obtain ⟨results, hresults, hmap, hforall⟩ := hall hphases
    exact ⟨results, by rw [probe_of_free hfree, hresults], by rw [hmap, probes_pairs], hforall⟩

def created : Outcome := { success := true, httpCode := 201 }

/-- A page that answers 201 discards the batch. -/
theorem created_raises : ¬ ∃ results,
    probe ⟨isWordChar, Char.isDigit⟩ (.ok none) (fun _ => created) ⟨["a.com"], ["fake:ttl=3"], "tls12"⟩ =
      .ok (.ok results) ∧
    Delivered ⟨isWordChar, Char.isDigit⟩ ⟨["a.com"], ["fake:ttl=3"], "tls12"⟩ (fun _ => created) results := by
  rintro ⟨results, h, -⟩
  have hraised : probe ⟨isWordChar, Char.isDigit⟩ (.ok none) (fun _ => created)
      ⟨["a.com"], ["fake:ttl=3"], "tls12"⟩ = .error .invalidPhase := by
    decide +kernel
  rw [hraised] at h
  cases h

end Blockchecks.ProbeService
