import Blockchecks.PairMatrix

namespace Blockchecks.PairSchedule

open PairMatrix Results Runs StrategyText

/-- The keys of the pairs that the store has logged for the domain of a call. -/
def logged (call : Call) (store : Option PairStore) : Finset (String × String) :=
  completedKeys call store true

/-- The pairs that a call has to probe: all of them, or with a checkpoint those
that are not logged yet. -/
def expected (call : Call) (store : Option PairStore) : List Task :=
  if call.resumeFrom = none then call.tasks
  else call.tasks.filter (fun t => t.key ∉ logged call store)

def ProbesExactly (call : Call) (store : Option PairStore) (s : State) : Prop :=
  s.probed.Perm (expected call store)

instance (call : Call) (store : Option PairStore) (s : State) : Decidable (ProbesExactly call store s) :=
  inferInstanceAs (Decidable (List.Perm _ _))

/-- No selected pair is logged yet, or the store is read exactly when there is a
checkpoint. -/
def ReadsAsResumed (call : Call) (store : Option PairStore) (readable : Bool) : Prop :=
  (∀ t ∈ call.tasks, t.key ∉ logged call store) ∨ (readable = true ↔ call.resumeFrom ≠ none)

instance (call : Call) (store : Option PairStore) (readable : Bool) :
    Decidable (ReadsAsResumed call store readable) :=
  inferInstanceAs (Decidable (_ ∨ _))

theorem filter_perm_self_iff {α : Type} {p : α → Bool} {l : List α} :
    (l.filter p).Perm l ↔ ∀ a ∈ l, p a = true := by
  constructor
  · intro h
    exact List.length_filter_eq_length_iff.mp h.length_eq
  · intro h
    rw [List.filter_eq_self.mpr h]

theorem filter_empty (call : Call) :
    call.tasks.filter (fun t => t.key ∉ (∅ : Finset (String × String))) = call.tasks := by
  simp

/-- A gather ends after at most four steps a task, and only when every task has
ended. The probed pairs are then those that the call has to probe exactly when the
keys it has read agree with the way it was called. -/
theorem schedule_iff {poolSize : Nat} (hpool : 0 < poolSize) (call : Call) (store : Option PairStore)
    (readable : Bool) (actions : List Action) (s : State)
    (h : run (step poolSize call) (start call store readable) actions = some s) :
    actions.length ≤ 4 * call.tasks.length ∧
      ((∀ a, step poolSize call s a = none) → s.finished) ∧
      (s.finished → (ProbesExactly call store s ↔ ReadsAsResumed call store readable)) := by
  refine ⟨?_, ?_, fun hdone => ?_⟩
  · have hleft := run_left h
    have hstart : (start call store readable).left = 4 * call.tasks.length := rfl
    omega
  · intro hstuck
    by_contra hdone
    obtain ⟨a, ha⟩ := @progress call s poolSize hpool hdone
    rw [hstuck a] at ha
    cases ha
  · have hprobed := finished_probed h hdone
    rw [ProbesExactly, ReadsAsResumed, expected, List.Perm.congr_left hprobed]
    cases readable with
    | true =>
        by_cases hresume : call.resumeFrom = none
        · simp [hresume, logged, filter_perm_self_iff]
        · rw [if_neg hresume]
          exact iff_of_true (List.Perm.refl _) (Or.inr (iff_of_true rfl hresume))
    | false =>
        by_cases hresume : call.resumeFrom = none
        · simp [hresume, completedKeys]
        · have hall : completedKeys call store false = ∅ := rfl
          rw [if_neg hresume, hall, filter_empty, List.perm_comm, filter_perm_self_iff]
          simp [hresume]

def tcpPass : TcpTestResult where
  item := { label := "tcp_a", strategy := "fake" }
  domain := "d"
  success := true

def udpItem : StrategyItem := { label := "u_a", strategy := "fake" }

def pairCall (resumeFrom : Option Checkpoint) : Call where
  tcpResults := [tcpPass]
  udpStrategies := [udpItem]
  domain := "d"
  voiceIp := "1.2.3.4"
  voicePort := 5
  resumeFrom := resumeFrom
  fingerprint := "f2"

def oldTask : Task := ⟨0, tcpPass, 0, udpItem⟩

/-- A store with the pair and its checkpoint, of a campaign with another matrix. -/
def oldStore : PairStore where
  pairs := [(pairCall none).pairRow oldTask {}]
  checkpoints := [{ tcpIdx := 0, udpIdx := 0, fingerprint := "f1" }]

def probeOnce : List Action := [.start 0, .finish 0 (.ok {}), .logPair 0, .saveCheckpoint 0]

theorem newStore_probed : ∃ s, run (step 1 (pairCall none)) (start (pairCall none) (some {}) true) probeOnce = some s ∧
    s.finished ∧ ProbesExactly (pairCall none) (some {}) s := by
  refine ⟨_, rfl, by decide, ?_⟩
  exact ((schedule_iff Nat.one_pos (pairCall none) (some {}) true probeOnce _ rfl).2.2 (by decide)).mpr (by decide)

/-- The full pair re-run that a mismatch announces probes nothing. -/
theorem mismatch_unprobed : resumeFrom true oldStore.latestCheckpoint "f2" = none ∧
    ∃ s, run (step 1 (pairCall none)) (start (pairCall none) (some oldStore) true) [.start 0] = some s ∧
      s.finished ∧ ¬ ProbesExactly (pairCall none) (some oldStore) s := by
  refine ⟨by decide, _, rfl, by decide, ?_⟩
  decide

end Blockchecks.PairSchedule
