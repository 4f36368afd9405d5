import Blockchecks.StoreOrder

namespace Blockchecks.StoreLive

open Runs Locks StoreFlush StoreSteps StoreOrder

/-- What is known of the connection and the run at a statement. -/
def StageLive (conn known : Bool) : Stage → Prop
  | .connect => True
  | .insertRun | .commitRun => conn = true
  | .beginImmediate | .body _ _ | .commit | .rollback _ => conn = true ∧ known = true

/-- A flush in progress has rows; only a call of the store writes outside flushes. -/
def PcLive (conn known : Bool) (task : Task) : Pc → Prop
  | .waitWrite batch _ | .backoff batch _ => batch ≠ ∅
  | .awaiting stage batch _ _ => batch ≠ ∅ ∧ StageLive conn known stage
  | .writing => conn = true ∧ ∃ n, task = .call n
  | .absent | .outside | .dead | .waitFlush | .checkpointing => True

def Live (s : State) : Prop := ∀ task, PcLive s.conn s.runKnown task (s.pcs task)

variable {s t : State} {task : Task} {pc : Pc} {batchSize : ℕ+} {stage : Stage}
  {batch : Rows} {attempt : Nat}

theorem StageLive.mono {conn known conn' known' : Bool} (h : StageLive conn known stage)
    (hconn : conn = true → conn' = true) (hknown : known = true → known' = true) :
    StageLive conn' known' stage := by
  cases stage with
  | connect => trivial
  | insertRun | commitRun => exact hconn h
  | beginImmediate | body | commit | rollback => exact ⟨hconn h.1, hknown h.2⟩

theorem PcLive.mono {conn known conn' known' : Bool} (h : PcLive conn known task pc)
    (hconn : conn = true → conn' = true) (hknown : known = true → known' = true) :
    PcLive conn' known' task pc := by
  cases pc with
  | awaiting => exact ⟨h.1, h.2.mono hconn hknown⟩
  | writing => exact ⟨hconn h.1, h.2⟩
  | _ => exact h

theorem Live.update (h : Live s) (hconn : s.conn = true → t.conn = true)
    (hknown : s.runKnown = true → t.runKnown = true)
    (hpcs : t.pcs = Function.update s.pcs task pc) (hpc : PcLive t.conn t.runKnown task pc) :
    Live t := by
  intro other
  rw [hpcs]
  by_cases ho : other = task
  · rw [ho, Function.update_self]
    exact hpc
  · rw [Function.update_of_ne ho]
    exact (h other).mono hconn hknown

theorem Live.here (h : Live s) (hpc : s.pcs task = pc) : PcLive s.conn s.runKnown task pc :=
  hpc ▸ h task

theorem opening_live (s : State) : StageLive s.conn s.runKnown s.opening := by
  rw [State.opening, State.afterConnect]
  cases hc : s.conn with
  | true =>
      cases hk : s.runKnown with
      | true => exact ⟨rfl, rfl⟩
      | false => rfl
  | false => trivial

theorem bodyStage_live {conn known : Bool} (hconn : conn = true) (hknown : known = true)
    (rest : List Stmt) : StageLive conn known (bodyStage rest) := by
  cases rest <;> exact ⟨hconn, hknown⟩

theorem Live.fail (h : Live s) (hbatch : batch ≠ ∅) (failure : Failure) :
    Live (s.fail task batch attempt failure) := by
  rw [State.fail]
  split
  · exact h.update id id rfl hbatch
  · refine h.update id id rfl ?_
    split <;> trivial

theorem Live.resume {result : Outcome} (h : Live s)
    (hpc : s.pcs task = .awaiting stage batch attempt (some result)) :
    Live (s.resume task stage batch attempt result) := by
  obtain ⟨hbatch, hstage⟩ := h.here hpc
  cases result with
  | ok =>
      cases stage with
      | connect =>
          refine h.update (fun _ => rfl) id rfl ⟨hbatch, ?_⟩
          have hnext := opening_live { s with conn := true }
          rwa [State.opening, if_pos rfl] at hnext
      | insertRun => exact h.update id id rfl ⟨hbatch, hstage⟩
      | commitRun => exact h.update id (fun _ => rfl) rfl ⟨hbatch, hstage, rfl⟩
      | beginImmediate =>
          exact h.update id id rfl ⟨hbatch, bodyStage_live hstage.1 hstage.2 _⟩
      | body op rest => exact h.update id id rfl ⟨hbatch, bodyStage_live hstage.1 hstage.2 rest⟩
      | commit =>
          simp only [State.resume, State.flushed]
          split <;> exact h.update id id rfl trivial
      | rollback failure => exact h.fail hbatch failure
  | fails failure progress =>
      cases stage with
      | body | commit => exact h.update id id rfl ⟨hbatch, hstage⟩
      | _ => exact h.fail hbatch failure

theorem step_live {a : Action} (h : Live s) (hmoves : Moves s a t) : Live t := by
  cases hmoves with
  | log call aged hpc hnew =>
      have happend : Live (s.append call) := by
        rw [State.append, State.ensureTimer]
        split
        · exact h.update id id rfl trivial
        · exact h
      refine happend.update id id rfl ?_
      rcases hnew with rfl | rfl <;> trivial
  | sleep => exact h
  | flush _ | wakeTimer _ _ | nothing _ _ _ | endCheckpoint _ => exact h.update id id rfl trivial
  | drain _ _ hpending => exact h.update id id rfl hpending
  | acquireWrite hpc _ => exact h.update id id rfl ⟨h.here hpc, opening_live s⟩
  | execute outcome hpc =>
      have hlive := h.here hpc
      exact h.update id id rfl hlive
  | resume hpc => exact h.resume hpc
  | wake hpc =>
      have hlive := h.here hpc
      exact h.update id id rfl hlive
  | lockWrite _ _ => exact h.update (fun _ => rfl) id rfl ⟨rfl, _, rfl⟩
  | unlockWrite commits _ => exact h.update id id rfl trivial

theorem start_live (conn runKnown : Bool) : Live (start conn runKnown) := by
  intro task
  cases task <;> trivial

theorem fail_frame (s : State) (task : Task) (batch : Rows) (attempt : Nat)
    (failure : Failure) : (s.fail task batch attempt failure).db = s.db ∧
      (s.fail task batch attempt failure).conn = s.conn := by
  rw [State.fail]
  split <;> exact ⟨rfl, rfl⟩

/-- Only statements change the database, and the connection is only opened. -/
theorem resume_frame (s : State) (task : Task) (stage : Stage) (batch : Rows)
    (attempt : Nat) (result : Outcome) :
    (s.resume task stage batch attempt result).db = s.db ∧
      (s.conn = true → (s.resume task stage batch attempt result).conn = true) := by
  have hfail : ∀ failure, (s.fail task batch attempt failure).db = s.db ∧
      (s.conn = true → (s.fail task batch attempt failure).conn = true) := by
    intro failure
    obtain ⟨hdb, hconn⟩ := fail_frame s task batch attempt failure
    exact ⟨hdb, fun h => hconn.trans h⟩
  cases result with
  | ok =>
      cases stage with
      | connect => exact ⟨rfl, fun _ => rfl⟩
      | commit =>
          simp only [State.resume, State.flushed]
          split <;> exact ⟨rfl, id⟩
      | rollback failure => exact hfail failure
      | _ => exact ⟨rfl, id⟩
  | fails failure progress =>
      cases stage with
      | body | commit => exact ⟨rfl, id⟩
      | _ => exact hfail failure

theorem append_frame (s : State) (call : LogCall) :
    (s.append call).db = s.db ∧ (s.append call).conn = s.conn := by
  rw [State.append, State.ensureTimer]
  split <;> exact ⟨rfl, rfl⟩

theorem moves_conn {a : Action} (h : Moves s a t) (hconn : s.conn = true) :
    t.conn = true := by
  cases h with
  | log call aged _ _ => exact (append_frame s call).2.trans hconn
  | resume _ => exact (resume_frame s _ _ _ _ _).2 hconn
  | lockWrite => rfl
  | _ => exact hconn

/-- Without a connection nothing is committed. -/
theorem moves_committed {a : Action} (h : Moves s a t) (hlive : Live s)
    (hconn : s.conn = false) : t.db.committed = s.db.committed := by
  have hne : s.conn ≠ true := by rw [hconn]; exact Bool.false_ne_true
  cases h with
  | log call aged _ _ => exact congrArg Database.committed (append_frame s call).1
  | @execute _ stage _ _ outcome hpc =>
      have hstage := (hlive.here hpc).2
      cases stage with
      | connect => rfl
      | insertRun | commitRun => exact absurd hstage hne
      | beginImmediate | body | commit | rollback => exact absurd hstage.1 hne
  | resume _ => exact congrArg Database.committed (resume_frame s _ _ _ _ _).1
  | unlockWrite commits hpc => exact absurd (hlive.here hpc).1 hne
  | _ => rfl

/-- The connection is there or some row is not committed. -/
def Short (total : Rows) (s : State) : Prop :=
  s.conn = true ∨ s.db.committed.length < total.length

variable {left : Prop} {total : Rows}

theorem step_short {a : Action} (hlive : Live s) (h : Moves s a t)
    (hshort : Short total s) : Short (total ++ logged a) t := by
  cases hc : s.conn with
  | true => exact Or.inl (moves_conn h hc)
  | false =>
      have hlt : s.db.committed.length < total.length :=
        hshort.resolve_left (by rw [hc]; exact Bool.false_ne_true)
      right
      rw [moves_committed h hlive hc, Rows.length_append]
      omega

/-- A flush that waits for its connection has rows that are not committed. -/
theorem short_of_awaiting {result : Option Outcome} (hinv : Inv left total s) (hlive : Live s)
    (hpc : s.pcs task = .awaiting stage batch attempt result) : Short total s := by
  obtain ⟨hbatch, hstage⟩ := hlive.here hpc
  cases stage with
  | connect =>
      obtain ⟨_, _, hconserved⟩ := hinv.here hpc trivial
      have hlen := congrArg Rows.length hconserved
      have hpos : batch.length ≠ 0 := fun he => hbatch (Rows.length_eq_zero_iff.mp he)
      simp only [inFlight, stageRows, Rows.length_append] at hlen
      exact Or.inr (by omega)
  | insertRun | commitRun => exact Or.inl hstage
  | beginImmediate | body | commit | rollback => exact Or.inl hstage.1

theorem update_dead (hpcs : t.pcs = Function.update s.pcs task pc) (hpc : pc ≠ .dead)
    (h : t.pcs .timer = .dead) : s.pcs .timer = .dead := by
  rw [hpcs] at h
  by_cases ht : .timer = task
  · rw [ht, Function.update_self] at h
    exact absurd h hpc
  · rwa [Function.update_of_ne ht] at h

/-- The timer dies only with the result of a statement of its flush. -/
theorem dead_cases {a : Action} (h : Moves s a t) (hdead : t.pcs .timer = .dead) :
    s.pcs .timer = .dead ∨
      ∃ stage batch attempt result, s.pcs .timer = .awaiting stage batch attempt result := by
  cases h with
  | log call aged hpc hnew =>
      have hs : (s.append call).pcs .timer = .dead :=
        update_dead rfl (by rcases hnew with rfl | rfl <;> simp) hdead
      rw [State.append, State.ensureTimer] at hs
      split at hs
      · simp only [State.setPc, Function.update_self, reduceCtorEq] at hs
      · exact Or.inl hs
  | sleep => exact Or.inl hdead
  | @resume task _ _ _ _ hpc =>
      obtain ⟨pc, hpcs⟩ := resume_pcs s task _ _ _ _
      by_cases ht : .timer = task
      · exact Or.inr ⟨_, _, _, _, ht ▸ hpc⟩
      · rw [hpcs, Function.update_of_ne ht] at hdead
        exact Or.inl hdead
  | _ => exact Or.inl (update_dead rfl (by simp) hdead)

/-- When the timer is dead, rows are left or the connection is still open. -/
def DeadShort (total : Rows) (s : State) : Prop := s.pcs .timer = .dead → Short total s

theorem step_deadShort {a : Action} (hinv : Inv left total s) (hlive : Live s) (h : Moves s a t)
    (hdead : DeadShort total s) : DeadShort (total ++ logged a) t := by
  intro ht
  refine step_short hlive h ?_
  rcases dead_cases h ht with hs | ⟨_, _, _, _, hpc⟩
  · exact hdead hs
  · exact short_of_awaiting hinv hlive hpc

/-- What holds before close() begins. -/
structure Serving (total : Rows) (s : State) : Prop where
  inv : Inv False total s
  live : Live s
  dead : DeadShort total s
  closer : s.pcs .closer = .outside

theorem start_serving (conn runKnown : Bool) : Serving ∅ (start conn runKnown) where
  inv := start_inv conn runKnown
  live := start_live conn runKnown
  dead := fun h => by cases h
  closer := rfl

theorem step_serving {a : Action} (h : Serving total s) (hstep : step batchSize s a = some t) :
    Serving (total ++ logged a) t := by
  have hmoves := moves_of_step hstep
  exact ⟨step_inv h.inv hstep False.elim, step_live h.live hmoves,
    step_deadShort h.inv h.live hmoves h.dead, hmoves.pcs_outside h.closer⟩

theorem run_serving {actions : List Action} (h : Serving total s)
    (hrun : run (step batchSize) s actions = some t) : Serving (total ++ loggedBy actions) t := by
  induction actions generalizing s total with
  | nil =>
      rw [loggedBy, Rows.append_empty]
      exact Option.some.inj hrun ▸ h
  | cons a actions ih =>
      obtain ⟨u, hu, hrun⟩ := run_cons_eq_some.mp hrun
      have hlast := ih (step_serving h hu) hrun
      rwa [Rows.append_assoc] at hlast

end Blockchecks.StoreLive
