import Blockchecks.ProbeLogger
import Blockchecks.Runs
import Mathlib.Algebra.BigOperators.Group.List.Basic
import Mathlib.Algebra.GroupWithZero.Nat
import Mathlib.Data.Finset.Card
import Mathlib.Data.List.Perm.Basic

namespace Blockchecks.PairMatrix

open ProbeLogger Results Runs StrategyText

structure Checkpoint where
  tcpIdx : Nat
  udpIdx : Nat
  note : String := ""
  fingerprint : String := ""
  tcpLabel : String := ""
  udpLabel : String := ""
  deriving DecidableEq

structure PairRow where
  tcpStrategy : String
  udpStrategy : String
  domain : String
  tcpOk : Bool
  gatewayOk : Bool
  udpOk : Bool
  tcpMs : ℚ
  gatewayMs : ℚ
  udpMs : ℚ
  overall : String
  deriving DecidableEq

structure UdpRow where
  strategy : String
  target : String
  status : String
  latencyMs : ℚ
  error : String
  configPath : String
  deriving DecidableEq

/-- The tables that the pair matrix writes, oldest row first. -/
structure PairStore where
  pairs : List PairRow := []
  udp : List UdpRow := []
  checkpoints : List Checkpoint := []
  deriving DecidableEq

namespace PairStore

variable (store : PairStore)

def getCompletedPairKeys (domain : String) : Finset (String × String) :=
  ((store.pairs.filter (fun row => row.domain = domain)).map
    (fun row => (row.tcpStrategy, row.udpStrategy))).toFinset

def latestCheckpoint : Option Checkpoint := store.checkpoints.getLast?

end PairStore

def fingerprintMismatch (checkpointFp currentFp : String) : Bool :=
  decide (checkpointFp ≠ "" ∧ checkpointFp ≠ currentFp)

/-- The checkpoint that run_pairs_phase resumes from. On a mismatch it announces a
full pair re-run. -/
def resumeFrom (resume : Bool) (latest : Option Checkpoint) (fp : String) : Option Checkpoint :=
  if resume then latest.filter (fun cp => !fingerprintMismatch cp.fingerprint fp) else none

/-- What the UDP check of a pair returns. -/
structure UdpData where
  success : Bool := false
  latencyMs : ℚ := 0
  detail : String := ""
  deriving DecidableEq

structure PairResult where
  tcpItem : StrategyItem
  udpItem : StrategyItem
  tcpOk : Bool := false
  udpOk : Bool := false
  tcpMs : ℚ := 0
  udpMs : ℚ := 0
  overall : String := "PENDING"
  deriving DecidableEq

/-- A pair to probe, with the positions that its checkpoint records. -/
structure Task where
  tcpIdx : Nat
  tcp : TcpTestResult
  udpIdx : Nat
  udp : StrategyItem
  deriving DecidableEq

def Task.key (t : Task) : String × String := (t.tcp.item.label, t.udp.label)

def overall (tcp : TcpTestResult) (udpOk : Bool) : String :=
  if tcp.throttled && udpOk then "THROTTLED"
  else if tcp.success && udpOk then "PASS"
  else if tcp.success && !udpOk then "PARTIAL"
  else "FAIL"

def Task.pairResult (t : Task) (data : UdpData) : PairResult where
  tcpItem := t.tcp.item
  udpItem := t.udp
  tcpOk := t.tcp.success
  udpOk := data.success
  tcpMs := t.tcp.latencyMs
  udpMs := data.latencyMs
  overall := overall t.tcp data.success

/-- The arguments of run, with the fingerprint that test_pair_matrix has given the
runner. -/
structure Call where
  tcpResults : List TcpTestResult
  udpStrategies : List StrategyItem
  domain : String
  voiceIp : String
  voicePort : Int
  udpBypass : Bool := false
  resumeFrom : Option Checkpoint := none
  fingerprint : String := ""
  pairDomain : Option String := none
  matrixFingerprint : String := ""

namespace Call

variable (call : Call)

def fp : String := orElse call.fingerprint call.matrixFingerprint

def logDomain : String := orElse (call.pairDomain.getD "") call.domain

def working : List (TcpTestResult × Nat) :=
  call.tcpResults.zipIdx.filter (fun p => call.udpBypass || p.1.success)

def tasks : List Task :=
  call.working.flatMap (fun p => call.udpStrategies.zipIdx.map (fun q => ⟨p.2, p.1, q.2, q.1⟩))

def endpoint : String := call.voiceIp ++ ":" ++ toString call.voicePort

/-- The line about a resume, without its colours. -/
def resumeLine (completed : Finset (String × String)) : Option String :=
  match call.resumeFrom.filter (fun cp => cp.tcpLabel ≠ "") with
  | some cp => some ("  Resuming after " ++ cp.tcpLabel ++ "+" ++ cp.udpLabel ++ " (" ++
      toString completed.card ++ " pairs in DB)")
  | none =>
      if completed = ∅ then none
      else some ("  Resuming: " ++ toString completed.card ++ " pairs already in DB")

def udpRow (t : Task) (data : UdpData) : UdpRow where
  strategy := t.udp.label
  target := call.endpoint
  status := if data.success then "PASS" else "FAIL"
  latencyMs := data.latencyMs
  error := data.detail
  configPath := t.udp.strategy

def pairRow (t : Task) (data : UdpData) : PairRow where
  tcpStrategy := t.tcp.item.label
  udpStrategy := t.udp.label
  domain := call.logDomain
  tcpOk := t.tcp.success
  gatewayOk := false
  udpOk := data.success
  tcpMs := t.tcp.latencyMs
  gatewayMs := 0
  udpMs := data.latencyMs
  overall := overall t.tcp data.success

def checkpoint (t : Task) : Checkpoint where
  tcpIdx := t.tcpIdx
  udpIdx := t.udpIdx
  note := t.tcp.item.label ++ "+" ++ t.udp.label ++ "@" ++ call.endpoint
  fingerprint := call.fp
  tcpLabel := t.tcp.item.label
  udpLabel := t.udp.label

end Call

/-- How far a pair is that has a namespace: at its checks, about to log what they
gave, or about to save its checkpoint with the lock of the database held. -/
inductive Phase where
  | probing
  | logging (data : UdpData)
  | saving
  deriving DecidableEq

structure State where
  completed : Finset (String × String)
  waiting : List Task
  active : List (Task × Phase) := []
  probed : List Task := []
  pairs : List PairResult := []
  store : Option PairStore

/-- A step of the task at a position of the waiting ones or of those with a
namespace. The checks of a pair end with the data or with an error. -/
inductive Action where
  | start (i : Nat)
  | finish (i : Nat) (outcome : Except String UdpData)
  | logPair (i : Nat)
  | saveCheckpoint (i : Nat)

def keysOf (store : Option PairStore) (domain : String) : Finset (String × String) :=
  (store.map (·.getCompletedPairKeys domain)).getD ∅

/-- The keys that run takes from the store, which it may fail to read. -/
def completedKeys (call : Call) (store : Option PairStore) (readable : Bool) :
    Finset (String × String) :=
  if readable then keysOf store call.logDomain else ∅

def start (call : Call) (store : Option PairStore) (readable : Bool) : State where
  completed := completedKeys call store readable
  waiting := call.tasks
  store := store

namespace State

variable (s : State)

def finished : Prop := s.waiting = [] ∧ s.active = []

instance : Decidable s.finished := inferInstanceAs (Decidable (_ ∧ _))

def startTask (poolSize : Nat) (i : Nat) : Option State :=
  match s.waiting[i]? with
  | none => none
  | some t =>
      if t.key ∈ s.completed then some { s with waiting := s.waiting.eraseIdx i }
      else if s.active.length < poolSize then
        some { s with
          waiting := s.waiting.eraseIdx i
          active := s.active ++ [(t, .probing)]
          probed := s.probed ++ [t] }
      else none

def finish (i : Nat) (outcome : Except String UdpData) : Option State :=
  match s.active[i]?, outcome with
  | some (_, .probing), .error _ => some { s with active := s.active.eraseIdx i }
  | some (t, .probing), .ok data => some { s with
      pairs := s.pairs ++ [t.pairResult data]
      active := if s.store.isSome then s.active.set i (t, .logging data) else s.active.eraseIdx i }
  | _, _ => none

def logPair (call : Call) (i : Nat) : Option State :=
  match s.active[i]? with
  | some (t, .logging data) =>
      if s.active.any (fun p => p.2 = .saving) then none
      else some { s with
        store := s.store.map (fun store => { store with
          udp := store.udp ++ [call.udpRow t data]
          pairs := store.pairs ++ [call.pairRow t data] })
        active := s.active.set i (t, .saving) }
  | _ => none

def saveCheckpoint (call : Call) (i : Nat) : Option State :=
  match s.active[i]? with
  | some (t, .saving) => some { s with
      store := s.store.map (fun store => { store with checkpoints := store.checkpoints ++ [call.checkpoint t] })
      active := s.active.eraseIdx i }
  | _ => none

end State

def step (poolSize : Nat) (call : Call) (s : State) : Action → Option State
  | .start i => s.startTask poolSize i
  | .finish i outcome => s.finish i outcome
  | .logPair i => s.logPair call i
  | .saveCheckpoint i => s.saveCheckpoint call i

variable {call : Call} {s s' : State} {poolSize : Nat} {a : Action}

inductive Moves (poolSize : Nat) (call : Call) (s : State) : Action → State → Prop
  | skip {i : Nat} {t : Task} (h : s.waiting[i]? = some t) (hkey : t.key ∈ s.completed) :
      Moves poolSize call s (.start i) { s with waiting := s.waiting.eraseIdx i }
  | probe {i : Nat} {t : Task} (h : s.waiting[i]? = some t) (hkey : t.key ∉ s.completed)
      (hfree : s.active.length < poolSize) :
      Moves poolSize call s (.start i) { s with
        waiting := s.waiting.eraseIdx i
        active := s.active ++ [(t, .probing)]
        probed := s.probed ++ [t] }
  | raise {i : Nat} {t : Task} (error : String) (h : s.active[i]? = some (t, .probing)) :
      Moves poolSize call s (.finish i (.error error)) { s with active := s.active.eraseIdx i }
  | finish {i : Nat} {t : Task} (data : UdpData) (h : s.active[i]? = some (t, .probing)) :
      Moves poolSize call s (.finish i (.ok data)) { s with
        pairs := s.pairs ++ [t.pairResult data]
        active := if s.store.isSome then s.active.set i (t, .logging data) else s.active.eraseIdx i }
  | logPair {i : Nat} {t : Task} {data : UdpData} (h : s.active[i]? = some (t, .logging data))
      (hlock : s.active.any (fun p => p.2 = .saving) = false) :
      Moves poolSize call s (.logPair i) { s with
        store := s.store.map (fun store => { store with
          udp := store.udp ++ [call.udpRow t data]
          pairs := store.pairs ++ [call.pairRow t data] })
        active := s.active.set i (t, .saving) }
  | saveCheckpoint {i : Nat} {t : Task} (h : s.active[i]? = some (t, .saving)) :
      Moves poolSize call s (.saveCheckpoint i) { s with
        store := s.store.map (fun store => { store with checkpoints := store.checkpoints ++ [call.checkpoint t] })
        active := s.active.eraseIdx i }

theorem moves_of_step (h : step poolSize call s a = some s') : Moves poolSize call s a s' := by
  cases a with
  | start i =>
      simp only [step, State.startTask] at h
      split at h
      · cases h
      next t ht =>
        split at h
        next hkey =>
          obtain rfl := Option.some.inj h
          exact .skip ht hkey
        next hkey =>
          split at h
          next hfree =>
            obtain rfl := Option.some.inj h
            exact .probe ht hkey hfree
          · cases h
  | finish i outcome =>
      simp only [step, State.finish] at h
      split at h
      next hi =>
        obtain rfl := Option.some.inj h
        exact .raise _ hi
      next hi =>
        obtain rfl := Option.some.inj h
        exact .finish _ hi
      · cases h
  | logPair i =>
      simp only [step, State.logPair] at h
      split at h
      next hi =>
        split at h
        · cases h
        next hlock =>
          obtain rfl := Option.some.inj h
          exact .logPair hi (Bool.eq_false_iff.mpr hlock)
      · cases h
  | saveCheckpoint i =>
      simp only [step, State.saveCheckpoint] at h
      split at h
      next hi =>
        obtain rfl := Option.some.inj h
        exact .saveCheckpoint hi
      · cases h

theorem perm_eraseIdx {α : Type} {l : List α} {i : Nat} {x : α} (h : l[i]? = some x) :
    l.Perm (x :: l.eraseIdx i) := by
  obtain ⟨hi, rfl⟩ := List.getElem?_eq_some_iff.mp h
  exact (List.getElem_cons_eraseIdx_perm hi).symm

/-- What a step does to the waiting tasks and the probed ones. -/
theorem step_queues (h : step poolSize call s a = some s') :
    s'.completed = s.completed ∧ (s'.waiting = s.waiting ∧ s'.probed = s.probed ∨
      ∃ t, s.waiting.Perm (t :: s'.waiting) ∧
        (t.key ∈ s.completed ∧ s'.probed = s.probed ∨
          t.key ∉ s.completed ∧ s'.probed = s.probed ++ [t])) := by
  cases moves_of_step h with
  | skip ht hkey => exact ⟨rfl, Or.inr ⟨_, perm_eraseIdx ht, Or.inl ⟨hkey, rfl⟩⟩⟩
  | probe ht hkey _ => exact ⟨rfl, Or.inr ⟨_, perm_eraseIdx ht, Or.inr ⟨hkey, rfl⟩⟩⟩
  | raise | finish | logPair | saveCheckpoint => exact ⟨rfl, Or.inl ⟨rfl, rfl⟩⟩

/-- The probed tasks and those that are still to be probed. -/
def State.probes (s : State) : List Task :=
  s.probed ++ s.waiting.filter (fun t => t.key ∉ s.completed)

theorem step_probes (h : step poolSize call s a = some s') : s'.probes.Perm s.probes := by
  obtain ⟨hcompleted, ⟨hwaiting, hprobed⟩ | ⟨t, hperm, hkey⟩⟩ := step_queues h
  · rw [State.probes, State.probes, hcompleted, hwaiting, hprobed]
  · have hfilter := hperm.filter (fun t => t.key ∉ s.completed)
    rw [State.probes, State.probes, hcompleted]
    rcases hkey with ⟨hin, hprobed⟩ | ⟨hout, hprobed⟩
    · rw [List.filter_cons_of_neg (by simpa using hin)] at hfilter
      rw [hprobed]
      exact hfilter.symm.append_left _
    · rw [List.filter_cons_of_pos (by simpa using hout)] at hfilter
      rw [hprobed, List.append_assoc]
      exact hfilter.symm.append_left _

variable {actions : List Action} {store : Option PairStore} {readable : Bool}

/-- Whatever the order of the tasks, those whose keys are not completed are probed. -/
theorem finished_probed (h : run (step poolSize call) (start call store readable) actions = some s)
    (hdone : s.finished) :
    s.probed.Perm (call.tasks.filter (fun t => t.key ∉ completedKeys call store readable)) := by
  have hprobes : s.probes.Perm (start call store readable).probes :=
    run_invariant (P := fun s => s.probes.Perm (start call store readable).probes)
      (fun _ _ _ hs hstep => (step_probes hstep).trans hs) (List.Perm.refl _) h
  rw [State.probes, hdone.1, List.filter_nil, List.append_nil] at hprobes
  exact hprobes

/-- The steps that a task with a namespace still has to make. -/
def Phase.left : Phase → Nat
  | .probing => 3
  | .logging _ => 2
  | .saving => 1

@[simp] theorem left_probing : Phase.probing.left = 3 := rfl

@[simp] theorem left_logging (data : UdpData) : (Phase.logging data).left = 2 := rfl

@[simp] theorem left_saving : Phase.saving.left = 1 := rfl

def State.left (s : State) : Nat := 4 * s.waiting.length + (s.active.map (fun p => p.2.left)).sum

theorem left_eraseIdx {l : List (Task × Phase)} {i : Nat} {p : Task × Phase} (h : l[i]? = some p) :
    (l.map (fun p => p.2.left)).sum = p.2.left + ((l.eraseIdx i).map (fun p => p.2.left)).sum := by
  have hperm := (perm_eraseIdx h).map (fun p : Task × Phase => p.2.left)
  rw [hperm.sum_eq, List.map_cons, List.sum_cons]

theorem left_set {l : List (Task × Phase)} {i : Nat} {p : Task × Phase} (h : l[i]? = some p)
    (q : Task × Phase) :
    ((l.set i q).map (fun p => p.2.left)).sum = q.2.left + ((l.eraseIdx i).map (fun p => p.2.left)).sum := by
  obtain ⟨hi, rfl⟩ := List.getElem?_eq_some_iff.mp h
  have hperm := (List.set_perm_cons_eraseIdx hi q).map (fun p : Task × Phase => p.2.left)
  rw [hperm.sum_eq, List.map_cons, List.sum_cons]

theorem step_left (h : step poolSize call s a = some s') : s'.left < s.left := by
  cases moves_of_step h with
  | skip ht _ =>
      have hlength := (perm_eraseIdx ht).length_eq
      simp only [State.left, hlength, List.length_cons]
      omega
  | probe ht _ _ =>
      have hlength := (perm_eraseIdx ht).length_eq
      simp only [State.left, hlength, List.length_cons, List.map_append, List.map_cons, List.map_nil,
        List.sum_append, List.sum_cons, List.sum_nil, left_probing]
      omega
  | raise error hi =>
      have hleft := left_eraseIdx hi
      simp only [State.left, hleft, left_probing]
      omega
  | @finish i t data hi =>
      have hleft := left_eraseIdx hi
      have hset := left_set hi (t, .logging data)
      simp only [State.left]
      split
      · simp only [hleft, hset, left_probing, left_logging]
        omega
      · simp only [hleft, left_probing]
        omega
  | @logPair i t data hi _ =>
      have hleft := left_eraseIdx hi
      have hset := left_set hi (t, .saving)
      simp only [State.left, hleft, hset, left_logging, left_saving]
      omega
  | saveCheckpoint hi =>
      have hleft := left_eraseIdx hi
      simp only [State.left, hleft, left_saving]
      omega

theorem run_left (h : run (step poolSize call) s actions = some s') :
    actions.length + s'.left ≤ s.left := by
  induction actions generalizing s with
  | nil =>
      obtain rfl := Option.some.inj h
      simp
  | cons a actions ih =>
      obtain ⟨t, ht, hrun⟩ := run_cons_eq_some.mp h
      have hlt := step_left ht
      have hle := ih hrun
      rw [List.length_cons]
      omega

/-- Until the gather returns, some task can go on: one that holds the lock of the
database, else one that waits for it, else one at its checks, else the next. -/
theorem progress (hpool : 0 < poolSize) (hdone : ¬ s.finished) :
    ∃ a, (step poolSize call s a).isSome := by
  by_cases hsaving : ∃ t, (t, Phase.saving) ∈ s.active
  · obtain ⟨t, ht⟩ := hsaving
    obtain ⟨i, hi⟩ := List.getElem?_of_mem ht
    exact ⟨.saveCheckpoint i, by simp only [step, State.saveCheckpoint, hi, Option.isSome_some]⟩
  · have hfree : s.active.any (fun p => p.2 = .saving) = false := by
      rw [List.any_eq_false]
      rintro ⟨t, phase⟩ hp hphase
      obtain rfl := of_decide_eq_true hphase
      exact hsaving ⟨t, hp⟩
    cases hactive : s.active with
    | cons p rest =>
        obtain ⟨t, phase⟩ := p
        have hi : s.active[0]? = some (t, phase) := by rw [hactive]; rfl
        cases phase with
        | probing => exact ⟨.finish 0 (.error ""), by simp only [step, State.finish, hi, Option.isSome_some]⟩
        | logging data =>
            refine ⟨.logPair 0, ?_⟩
            simp only [step, State.logPair, hi, hfree, Bool.false_eq_true, if_false, Option.isSome_some]
        | saving => exact absurd ⟨t, hactive ▸ List.mem_cons_self⟩ hsaving
    | nil =>
        cases hwaiting : s.waiting with
        | nil => exact absurd ⟨hwaiting, hactive⟩ hdone
        | cons t rest =>
            refine ⟨.start 0, ?_⟩
            simp only [step, State.startTask, hwaiting, List.getElem?_cons_zero, hactive, List.length_nil]
            split
            · rfl
            · rfl

theorem exists_finished (hpool : 0 < poolSize) (call : Call) (s : State) :
    ∃ actions s', run (step poolSize call) s actions = some s' ∧ s'.finished := by
  induction hn : s.left using Nat.strong_induction_on generalizing s with
  | _ n ih =>
      by_cases hdone : s.finished
      · exact ⟨[], s, rfl, hdone⟩
      · obtain ⟨a, ha⟩ := @progress call s poolSize hpool hdone
        obtain ⟨t, ht⟩ := Option.isSome_iff_exists.mp ha
        obtain ⟨actions, u, hu, hfinished⟩ := ih t.left (hn ▸ step_left ht) t rfl
        exact ⟨a :: actions, u, run_cons_eq_some.mpr ⟨t, ht, hu⟩, hfinished⟩

/-- A matrix logs pairs for the domain of its call only. -/
theorem step_keys {domain : String} (hdomain : call.logDomain ≠ domain)
    (h : step poolSize call s a = some s') : keysOf s'.store domain = keysOf s.store domain := by
  cases moves_of_step h with
  | skip | probe | raise | finish => rfl
  | logPair =>
      simp [keysOf, PairStore.getCompletedPairKeys, Option.map_map, Function.comp_def, Call.pairRow,
        List.filter_append, hdomain]
  | saveCheckpoint =>
      simp [keysOf, PairStore.getCompletedPairKeys, Option.map_map, Function.comp_def]

end Blockchecks.PairMatrix
