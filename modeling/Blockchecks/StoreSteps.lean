import Blockchecks.StoreFlush

namespace Blockchecks.StoreSteps

open Locks StoreFlush

/-- Under the flush lock. -/
def Flushing : Pc → Prop
  | .waitWrite _ _ | .awaiting _ _ _ _ | .backoff _ _ | .checkpointing => True
  | .absent | .outside | .dead | .waitFlush | .writing => False

/-- Under the write lock. -/
def Writing : Pc → Prop
  | .awaiting _ _ _ _ | .writing => True
  | .absent | .outside | .dead | .waitFlush | .waitWrite _ _ | .backoff _ _ | .checkpointing => False

/-- Another call of the store is writing. -/
def CallWriting : Pc → Prop
  | .writing => True
  | .absent | .outside | .dead | .waitFlush | .waitWrite _ _ | .awaiting _ _ _ _ | .backoff _ _
  | .checkpointing => False

theorem CallWriting.writing {pc : Pc} (h : CallWriting pc) : Writing pc := by
  cases pc with
  | writing => trivial
  | _ => exact h.elim

variable {s t : State} {task : Task} {pc : Pc} {batchSize : ℕ+}

theorem setPc_self (h : s.pcs task = pc) : s.setPc task pc = s := by
  rw [State.setPc, ← h, Function.update_eq_self]

theorem setPc_pcs (s : State) (task : Task) (pc : Pc) : (s.setPc task pc).pcs task = pc :=
  Function.update_self ..

theorem append_pcs_call (s : State) (call : LogCall) (n : Nat) :
    (s.append call).pcs (.call n) = s.pcs (.call n) := by
  rw [State.append, State.ensureTimer]
  split <;> rfl

/-- All that one action can do, with what its task was doing before. -/
inductive Moves (s : State) : Action → State → Prop
  | log {n : Nat} (call : LogCall) (aged : Bool) {pc : Pc} (h : s.pcs (.call n) = .outside)
      (hpc : pc = .outside ∨ pc = .waitFlush) :
      Moves s (.log n call aged) ((s.append call).setPc (.call n) pc)
  | flush {n : Nat} (h : s.pcs (.call n) = .outside) :
      Moves s (.flush n) (s.setPc (.call n) .waitFlush)
  | sleep (h : s.pcs .timer = .outside) (hpending : s.pending = ∅) : Moves s .wakeTimer s
  | wakeTimer (h : s.pcs .timer = .outside) (hpending : s.pending ≠ ∅) :
      Moves s .wakeTimer (s.setPc .timer .waitFlush)
  | nothing {task : Task} (h : s.pcs task = .waitFlush) (hlock : s.flushLock = none)
      (hpending : s.pending = ∅) : Moves s (.acquireFlush task) (s.setPc task .outside)
  | drain {task : Task} (h : s.pcs task = .waitFlush) (hlock : s.flushLock = none)
      (hpending : s.pending ≠ ∅) : Moves s (.acquireFlush task) (s.drain task)
  | acquireWrite {task : Task} {batch : Rows} {attempt : Nat}
      (h : s.pcs task = .waitWrite batch attempt) (hlock : s.writeLock = none) :
      Moves s (.acquireWrite task) (s.acquireWrite task batch attempt)
  | execute {task : Task} {stage : Stage} {batch : Rows} {attempt : Nat} (outcome : Outcome)
      (h : s.pcs task = .awaiting stage batch attempt none) :
      Moves s (.execute task outcome) (s.execute task stage batch attempt outcome)
  | resume {task : Task} {stage : Stage} {batch : Rows} {attempt : Nat} {result : Outcome}
      (h : s.pcs task = .awaiting stage batch attempt (some result)) :
      Moves s (.resume task) (s.resume task stage batch attempt result)
  | wake {task : Task} {batch : Rows} {attempt : Nat} (h : s.pcs task = .backoff batch attempt) :
      Moves s (.wake task) (s.setPc task (.waitWrite batch (attempt + 1)))
  | endCheckpoint {task : Task} (h : s.pcs task = .checkpointing) :
      Moves s (.endCheckpoint task) (s.release task)
  | lockWrite {n : Nat} (h : s.pcs (.call n) = .outside) (hlock : s.writeLock = none) :
      Moves s (.lockWrite n) (s.lockWrite n)
  | unlockWrite {n : Nat} (commits : Bool) (h : s.pcs (.call n) = .writing) :
      Moves s (.unlockWrite n commits) (s.unlockWrite n commits)

theorem moves_of_step {a : Action} (h : step batchSize s a = some t) : Moves s a t := by
  cases a with
  | log n call aged =>
      simp only [step] at h
      split at h
      next hpc =>
        split at h <;> cases h
        · exact .log call aged hpc (Or.inr rfl)
        · have hself : (s.append call).setPc (.call n) .outside = s.append call :=
            setPc_self ((append_pcs_call s call n).trans hpc)
          exact hself ▸ .log call aged hpc (Or.inl rfl)
      · cases h
  | flush n =>
      simp only [step] at h
      split at h <;> cases h
      next hpc => exact .flush hpc
  | wakeTimer =>
      simp only [step] at h
      split at h
      next hpc =>
        split at h <;> cases h
        next hpending => exact .sleep hpc hpending
        next hpending => exact .wakeTimer hpc hpending
      · cases h
  | acquireFlush task =>
      simp only [step] at h
      split at h
      next hpc hlock =>
        split at h <;> cases h
        next hpending => exact .nothing hpc hlock hpending
        next hpending => exact .drain hpc hlock hpending
      · cases h
  | acquireWrite task =>
      simp only [step] at h
      split at h <;> cases h
      next hpc hlock => exact .acquireWrite hpc hlock
  | execute task outcome =>
      simp only [step] at h
      split at h <;> cases h
      next hpc => exact .execute outcome hpc
  | resume task =>
      simp only [step] at h
      split at h <;> cases h
      next hpc => exact .resume hpc
  | wake task =>
      simp only [step] at h
      split at h <;> cases h
      next hpc => exact .wake hpc
  | endCheckpoint task =>
      simp only [step] at h
      split at h <;> cases h
      next hpc => exact .endCheckpoint hpc
  | lockWrite n =>
      simp only [step] at h
      split at h <;> cases h
      next hpc hlock => exact .lockWrite hpc hlock
  | unlockWrite n commits =>
      simp only [step] at h
      split at h <;> cases h
      next hpc => exact .unlockWrite commits hpc

def actor : Action → Task
  | .log n _ _ | .flush n | .lockWrite n | .unlockWrite n _ => .call n
  | .wakeTimer => .timer
  | .acquireFlush task | .acquireWrite task | .execute task _ | .resume task | .wake task
  | .endCheckpoint task => task

theorem fail_pcs (s : State) (task : Task) (batch : Rows) (attempt : Nat) (failure : Failure) :
    ∃ pc, (s.fail task batch attempt failure).pcs = Function.update s.pcs task pc := by
  rw [State.fail]
  split <;> exact ⟨_, rfl⟩

theorem flushed_pcs (s : State) (task : Task) :
    ∃ pc, (s.flushed task).pcs = Function.update s.pcs task pc := by
  rw [State.flushed]
  split <;> exact ⟨_, rfl⟩

theorem resume_pcs (s : State) (task : Task) (stage : Stage) (batch : Rows) (attempt : Nat)
    (result : Outcome) :
    ∃ pc, (s.resume task stage batch attempt result).pcs = Function.update s.pcs task pc := by
  cases result with
  | ok =>
      cases stage with
      | commit => exact flushed_pcs s task
      | rollback failure => exact fail_pcs s task batch attempt failure
      | _ => exact ⟨_, rfl⟩
  | fails failure progress =>
      cases stage with
      | body | commit => exact ⟨_, rfl⟩
      | _ => exact fail_pcs s task batch attempt failure

/-- A step moves its own task, and logging may start the timer. -/
theorem Moves.pcs_other {a : Action} {other : Task} (h : Moves s a t) (ha : other ≠ actor a)
    (ht : other ≠ .timer) : t.pcs other = s.pcs other := by
  cases h with
  | log call aged _ _ =>
      refine (Function.update_of_ne ha ..).trans ?_
      rw [State.append, State.ensureTimer]
      split
      · exact Function.update_of_ne ht ..
      · rfl
  | sleep => rfl
  | resume hpc =>
      obtain ⟨pc, hpcs⟩ := resume_pcs s (actor (.resume _)) _ _ _ _
      exact (congrFun hpcs other).trans (Function.update_of_ne ha ..)
  | _ => exact Function.update_of_ne ha ..

/-- No action is one of a task outside all calls, apart from the calls themselves. -/
theorem Moves.pcs_outside {a : Action} (h : Moves s a t) (ho : s.pcs .closer = .outside) :
    t.pcs .closer = .outside := by
  by_cases ha : actor a = .closer
  · have moved {pc : Pc} (hpc : s.pcs (actor a) = pc) (hne : pc ≠ .outside) : t.pcs .closer = .outside :=
      absurd ((hpc.symm.trans (congrArg s.pcs ha)).trans ho) hne
    cases h with
    | log | flush | sleep | wakeTimer | lockWrite | unlockWrite => cases ha
    | nothing hpc | drain hpc | acquireWrite hpc | execute _ hpc | resume hpc | wake hpc
    | endCheckpoint hpc => exact moved hpc (by simp)
  · exact (h.pcs_other (Ne.symm ha) (by simp)).trans ho

end Blockchecks.StoreSteps
