import Blockchecks.StoreClose

namespace Blockchecks.StoreFinish

open Runs Locks StoreFlush StoreSteps StoreOrder StoreLive StoreClose

variable {batchSize : ℕ+} {total : Rows}

def Unfailed (result : Option Outcome) : Stage → Prop
  | .connect | .insertRun | .commitRun | .beginImmediate | .body _ _ | .commit =>
      result = none ∨ result = some .ok
  | .rollback _ => False

/-- The flush of close() drains everything and does not fail. -/
def Finishing (s : State) : Pc → Prop
  | .waitFlush => True
  | .waitWrite _ _ => s.pending = ∅
  | .awaiting stage _ _ result => s.pending = ∅ ∧ Unfailed result stage
  | .outside => s.flushLock = none ∧ s.pending = ∅
  | .absent | .dead | .backoff _ _ | .checkpointing | .writing => False

section finishing

variable {s t : State} {task : Task} {b : Action}

theorem opening_unfailed (s : State) :
    Unfailed none s.opening ∧ Unfailed none s.afterConnect := by
  have hafter : Unfailed none s.afterConnect := by
    rw [State.afterConnect]
    split <;> exact Or.inl rfl
  refine ⟨?_, hafter⟩
  rw [State.opening]
  split
  · exact hafter
  · exact Or.inl rfl

theorem Unfailed.ok {stage : Stage} {result : Outcome} (h : Unfailed (some result) stage) :
    result = .ok := by
  cases stage with
  | rollback => exact h.elim
  | _ => exact Option.some.inj (h.resolve_left (Option.some_ne_none result))

theorem bodyStage_unfailed (rest : List Stmt) : Unfailed none (bodyStage rest) := by
  cases rest <;> exact Or.inl rfl

/-- Of a flush in another task nothing touches the pending rows. -/
theorem frame_held (hg : Guards Flushing s.flushLock s.pcs) (h : Moves s b t)
    (hquiet : Quiet (.store b)) (hlock : s.flushLock = some task) (hne : actor b ≠ task) :
    t.pending = s.pending := by
  have busy {pc : Pc} (hpc : s.pcs (actor b) = pc) (hf : Flushing pc) : t.pending = s.pending :=
    absurd (Option.some.inj (((hg _).mpr (hpc ▸ hf)).symm.trans hlock)) hne
  cases h with
  | log => exact hquiet.elim
  | flush | sleep | wakeTimer | lockWrite | unlockWrite => rfl
  | nothing _ hfree _ | drain _ hfree _ => cases hfree.symm.trans hlock
  | acquireWrite hpc _ | execute _ hpc | resume hpc | wake hpc | endCheckpoint hpc =>
      exact busy hpc trivial

/-- With nothing pending and no flush in progress no flush begins. -/
theorem frame_empty (hg : Guards Flushing s.flushLock s.pcs) (h : Moves s b t)
    (hquiet : Quiet (.store b)) (hlock : s.flushLock = none) (hpending : s.pending = ∅) :
    t.flushLock = none ∧ t.pending = ∅ ∧ t.conn = s.conn := by
  have busy {pc : Pc} (hpc : s.pcs (actor b) = pc) (hf : Flushing pc) :
      t.flushLock = none ∧ t.pending = ∅ ∧ t.conn = s.conn :=
    absurd (((hg _).mpr (hpc ▸ hf)).symm.trans hlock) (Option.some_ne_none _)
  cases h with
  | log | lockWrite => exact hquiet.elim
  | flush | sleep | nothing | unlockWrite => exact ⟨hlock, hpending, rfl⟩
  | wakeTimer _ hrows | drain _ _ hrows => exact absurd hpending hrows
  | acquireWrite hpc _ | execute _ hpc | resume hpc | wake hpc | endCheckpoint hpc =>
      exact busy hpc trivial

/-- With the run known no transaction is open before BEGIN IMMEDIATE. -/
theorem none_of_known (h : Spare False s) (hknown : s.runKnown = true) :
    s.db.transaction = none := by
  rcases h with h | ⟨hk, _⟩ | ⟨hl, _⟩
  · exact h
  · rw [hknown] at hk
    cases hk
  · exact hl.elim

theorem execute_unfailed {stage : Stage} {batch : Rows} {attempt : Nat} (hinv : Inv False total s)
    (hlive : Live s) (hpc : s.pcs task = .awaiting stage batch attempt none)
    (hstage : Unfailed none stage) : Unfailed (some (s.db.execute .ok stage).2) stage := by
  cases stage with
  | rollback => exact hstage.elim
  | beginImmediate =>
      have hspare : Spare False s := (hinv.here hpc trivial).2.1
      have hknown : s.runKnown = true := (hlive.here hpc).2.2
      have hnone := none_of_known hspare hknown
      refine Or.inr (congrArg some ?_)
      simp only [Database.execute, hnone]
  | _ => exact Or.inr rfl

theorem finishing_resume {stage : Stage} {batch : Rows} {attempt : Nat} {result : Outcome}
    (hpending : s.pending = ∅) (hok : Unfailed (some result) stage) :
    Finishing (s.resume .closer stage batch attempt result)
      ((s.resume .closer stage batch attempt result).pcs .closer) := by
  obtain rfl : result = .ok := hok.ok
  cases stage with
  | rollback => exact hok.elim
  | connect =>
      rw [State.resume, setPc_pcs]
      exact ⟨hpending, (opening_unfailed s).2⟩
  | insertRun | commitRun =>
      rw [State.resume, setPc_pcs]
      exact ⟨hpending, Or.inl rfl⟩
  | beginImmediate | body =>
      rw [State.resume, setPc_pcs]
      exact ⟨hpending, bodyStage_unfailed _⟩
  | commit =>
      rw [State.resume, State.flushed, if_pos rfl, setPc_pcs]
      exact ⟨rfl, hpending⟩

theorem finishing_own (hinv : Inv False total s) (hlive : Live s) (h : Moves s b t)
    (hquiet : Quiet (.store b)) (hactor : actor b = .closer)
    (hf : Finishing s (s.pcs .closer)) : Finishing t (t.pcs .closer) := by
  cases h with
  | log | flush | sleep | wakeTimer | lockWrite | unlockWrite => cases hactor
  | nothing _ hlock hpending =>
      obtain rfl := hactor
      rw [setPc_pcs]
      exact ⟨hlock, hpending⟩
  | drain =>
      obtain rfl := hactor
      rw [State.drain, setPc_pcs]
      rfl
  | acquireWrite hpc _ =>
      obtain rfl := hactor
      rw [hpc] at hf
      rw [State.acquireWrite, setPc_pcs]
      exact ⟨hf, (opening_unfailed s).1⟩
  | execute outcome hpc =>
      obtain rfl := hactor
      obtain rfl : outcome = .ok := hquiet
      rw [hpc] at hf
      rw [State.execute, setPc_pcs]
      exact ⟨hf.1, execute_unfailed hinv hlive hpc hf.2⟩
  | resume hpc =>
      obtain rfl := hactor
      rw [hpc] at hf
      exact finishing_resume hf.1 hf.2
  | wake hpc | endCheckpoint hpc =>
      obtain rfl := hactor
      rw [hpc] at hf
      exact hf.elim

theorem step_finishing (hinv : Inv False total s) (hlive : Live s) (h : Moves s b t)
    (hquiet : Quiet (.store b)) (hf : Finishing s (s.pcs .closer)) :
    Finishing t (t.pcs .closer) := by
  by_cases hactor : actor b = .closer
  · exact finishing_own hinv hlive h hquiet hactor hf
  · have hsame : t.pcs .closer = s.pcs .closer := h.pcs_other (Ne.symm hactor) (by simp)
    have held {pc : Pc} (hpc : s.pcs .closer = pc) (hflush : Flushing pc) : t.pending = s.pending :=
      frame_held hinv.flushing h hquiet ((hinv.flushing _).mpr (hpc ▸ hflush)) hactor
    rw [hsame]
    cases hpc : s.pcs .closer with
    | waitFlush => trivial
    | waitWrite =>
        rw [hpc] at hf
        exact (held hpc trivial).trans hf
    | awaiting =>
        rw [hpc] at hf
        exact ⟨(held hpc trivial).trans hf.1, hf.2⟩
    | outside =>
        rw [hpc] at hf
        have hframe := frame_empty hinv.flushing h hquiet hf.1 hf.2
        exact ⟨hframe.1, hframe.2.1⟩
    | absent | dead | backoff | checkpointing | writing =>
        rw [hpc] at hf
        exact hf.elim

end finishing

/-- The rows that are left are being written by the flush of close(). -/
structure Kept (total : Rows) (s : Closing) : Prop where
  inv : Inv False total s.store
  live : Live s.store
  finishing : Finishing s.store (s.store.pcs .closer)
  phase : s.phase = .flushing ∨
    s.phase = .finished ∧ s.store.pcs .closer = .outside ∧ s.store.conn = false

theorem step_kept {s t : Closing} {a : CloseAction} (h : Kept total s) (hquiet : Quiet a)
    (hstep : closeStep batchSize s a = some t) : Kept total t := by
  have hphase : s.phase ≠ .notBegun := by
    rcases h.phase with hp | hp
    · simp [hp]
    · simp [hp.1]
  rcases step_begun hphase hquiet hstep with ⟨b, u, rfl, hu, rfl⟩ | ⟨_, _, hpc, hlock, rfl⟩
  · have hmoves := moves_of_step hu
    have hinv := step_inv h.inv hu False.elim
    rw [hquiet.logged, Rows.append_empty] at hinv
    refine ⟨hinv, step_live h.live hmoves, step_finishing h.inv h.live hmoves hquiet h.finishing,
      Or.imp_right ?_ h.phase⟩
    rintro ⟨hp, hpc, hconn⟩
    have hf := h.finishing
    rw [hpc] at hf
    have hframe := frame_empty h.inv.flushing hmoves hquiet hf.1 hf.2
    exact ⟨hp, hmoves.pcs_outside hpc, hframe.2.2.trans hconn⟩
  · exact ⟨closeWriter_inv h.inv hlock, closeWriter_live h.inv h.live hlock, h.finishing,
      Or.inr ⟨rfl, hpc, rfl⟩⟩

theorem Kept.committed {s : Closing} (h : Kept total s) (hphase : s.phase = .finished) :
    s.store.db.committed = total ∧ s.store.conn = false := by
  obtain ⟨_, hpc, hconn⟩ := h.phase.resolve_left (by simp [hphase])
  have hf := h.finishing
  rw [hpc] at hf
  have hc := h.inv.conserved
  have hplace : place s.store = .outside := by rw [place, hf.1]; rfl
  rw [inProgress, hplace, inFlight, hf.2, Rows.append_empty, Rows.append_empty] at hc
  exact ⟨hc, hconn⟩

end Blockchecks.StoreFinish
