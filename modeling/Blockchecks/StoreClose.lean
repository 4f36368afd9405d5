import Blockchecks.StoreLive

namespace Blockchecks.StoreClose

open Runs Locks StoreFlush StoreSteps StoreOrder StoreLive

/-- Where close() is: it flushes what is left, then closes the writer. -/
inductive Phase where
  | notBegun
  | flushing
  | finished
  | raised
  deriving DecidableEq

structure Closing where
  store : State
  phase : Phase

inductive CloseAction where
  | store (action : Action)
  | close
  | flushTimeout
  | closeWriter
  | closeTimeout

/-- The writer's thread still runs the statement a cancelled task waited for. -/
def lastStatement (db : Database) : Pc → Database
  | .awaiting stage _ _ none => (db.execute .ok stage).1
  | .awaiting _ _ _ (some _) => db
  | .absent | .outside | .dead | .waitFlush | .waitWrite _ _ | .backoff _ _ | .checkpointing
  | .writing => db

/-- A cancelled task leaves its locks. CancelledError is no Exception, so
nothing is rolled back or put back. -/
def cancel (s : State) (task : Task) (pc : Pc) : State :=
  { s with
    db := lastStatement s.db (s.pcs task)
    flushLock := leave s.flushLock task
    writeLock := leave s.writeLock task }.setPc task pc

def cancelTimer (s : State) : State := cancel s .timer .absent

def closeWriter (s : State) : State :=
  { s with db := s.db.rollback, conn := false }

/-- Awaiting a timer that died of an exception raises it again. The flush and
the closing of the writer can each run into the timeout of wait_for. -/
def closeStep (batchSize : ℕ+) (s : Closing) : CloseAction → Option Closing
  | .store action => (step batchSize s.store action).map (fun store => ⟨store, s.phase⟩)
  | .close => match s.phase with
      | .notBegun => match s.store.pcs .timer with
          | .dead => some { s with phase := .raised }
          | .absent => some ⟨s.store.setPc .closer .waitFlush, .flushing⟩
          | _ => some ⟨(cancelTimer s.store).setPc .closer .waitFlush, .flushing⟩
      | _ => none
  | .flushTimeout => match s.phase, s.store.pcs .closer with
      | .flushing, .outside => none
      | .flushing, _ => some ⟨cancel s.store .closer .outside, .flushing⟩
      | _, _ => none
  | .closeWriter => match s.phase, s.store.pcs .closer, s.store.writeLock with
      | .flushing, .outside, none => some ⟨closeWriter s.store, .finished⟩
      | _, _, _ => none
  | .closeTimeout => match s.phase, s.store.pcs .closer with
      | .flushing, .outside => some ⟨{ s.store with conn := false }, .finished⟩
      | _, _ => none

/-- The timer task can be stopped here without losing rows: it holds no rows
yet, or COMMIT has been submitted for them and does not fail. -/
def Safe : Pc → Prop
  | .absent | .outside | .waitFlush | .checkpointing => True
  | .awaiting stage _ _ result => match stage with
      | .commit => result = none ∨ result = some .ok
      | .connect | .insertRun | .commitRun | .beginImmediate | .body _ _ | .rollback _ => False
  | .dead | .waitWrite _ _ | .backoff _ _ | .writing => False

/-- Once close() has begun no call logs or starts to write, and the database
accepts the statements in time. -/
def Quiet : CloseAction → Prop
  | .store action => match action with
      | .log _ _ _ | .lockWrite _ => False
      | .execute _ outcome => outcome = .ok
      | .flush _ | .wakeTimer | .acquireFlush _ | .acquireWrite _ | .resume _ | .wake _
      | .endCheckpoint _ | .unlockWrite _ _ => True
  | .close | .closeWriter => True
  | .flushTimeout | .closeTimeout => False

variable {batchSize : ℕ+} {left : Prop} {total : Rows}

theorem Quiet.logged {b : Action} (h : Quiet (.store b)) : logged b = ∅ := by
  cases b with
  | log => exact h.elim
  | _ => rfl

theorem Quiet.not_lockWrite {b : Action} (h : Quiet (.store b)) (n : Nat) :
    b ≠ .lockWrite n := by
  rintro rfl
  exact h

/-- Once begun, close() only closes the writer, after its own flush. -/
theorem step_begun {s t : Closing} {a : CloseAction} (hphase : s.phase ≠ .notBegun) (hquiet : Quiet a)
    (h : closeStep batchSize s a = some t) :
    (∃ b u, a = .store b ∧ step batchSize s.store b = some u ∧ t = ⟨u, s.phase⟩) ∨
      (a = .closeWriter ∧ s.phase = .flushing ∧ s.store.pcs .closer = .outside ∧
        s.store.writeLock = none ∧ t = ⟨closeWriter s.store, .finished⟩) := by
  cases a with
  | store b =>
      obtain ⟨u, hu, rfl⟩ := Option.map_eq_some_iff.mp h
      exact Or.inl ⟨b, u, rfl, hu, rfl⟩
  | close =>
      simp only [closeStep] at h
      cases h
  | flushTimeout | closeTimeout => exact hquiet.elim
  | closeWriter =>
      simp only [closeStep] at h
      split at h
      next hp hpc hlock =>
        cases h
        exact Or.inr ⟨rfl, hp, hpc, hlock, rfl⟩
      · cases h

theorem closeWriter_inv {s : State} (h : Inv left total s) (hlock : s.writeLock = none) :
    Inv left total (closeWriter s) := by
  have hfree : ¬ Writing (place s) := by
    have hg := h.writing
    rw [hlock] at hg
    rcases h.flushing.place_cases .outside with ⟨_, hp⟩ | ⟨task, _, _, hp⟩
    · rw [place, hp]
      exact id
    · rw [place, hp]
      exact hg.not_of_free task
  exact ⟨h.flushing, h.writing, Sound.of_idle (Or.inl rfl) hfree, h.conserved⟩

theorem closeWriter_live {s : State} (h : Inv left total s) (hlive : Live s)
    (hlock : s.writeLock = none) : Live (closeWriter s) := by
  have hg := h.writing
  rw [hlock] at hg
  intro task
  have hlive := hlive task
  have hfree := hg.not_of_free task
  change PcLive false s.runKnown task (s.pcs task)
  cases hpc : s.pcs task with
  | awaiting | writing =>
      rw [hpc] at hfree
      exact absurd trivial hfree
  | _ =>
      rw [hpc] at hlive
      exact hlive

section cancel

variable {s t : State} {stage : Stage} {batch : Rows} {attempt : Nat}

theorem cancelTimer_other (s : State) {other : Task} (h : other ≠ .timer) :
    (cancelTimer s).pcs other = s.pcs other :=
  Function.update_of_ne h ..

theorem cancelTimer_live (h : Live s) : Live (cancelTimer s) := h.update id id rfl trivial

theorem cancelTimer_db {pc : Pc} (hpc : s.pcs .timer = pc) :
    (cancelTimer s).db = lastStatement s.db pc := by
  rw [← hpc]
  rfl

/-- A timer outside its flush has nothing to leave. -/
theorem cancelTimer_idle (h : Inv left total s)
    (hpc : ¬ Flushing (s.pcs .timer) ∧ ¬ Writing (s.pcs .timer)) :
    cancelTimer s = s.setPc .timer .absent := by
  have hflush : leave s.flushLock .timer = s.flushLock :=
    if_neg (fun hl => hpc.1 ((h.flushing _).mp hl))
  have hwrite : leave s.writeLock .timer = s.writeLock :=
    if_neg (fun hl => hpc.2 ((h.writing _).mp hl))
  have hdb : lastStatement s.db (s.pcs .timer) = s.db := by
    cases hp : s.pcs .timer with
    | awaiting =>
        rw [hp] at hpc
        exact absurd trivial hpc.2
    | _ => rfl
  rw [cancelTimer, cancel, hflush, hwrite, hdb]

theorem cancelTimer_flushing {rest : Rows} (h : Inv False total s) (hf : Flushing (s.pcs .timer))
    (hspare : Spare left (cancelTimer s))
    (hrest : (cancelTimer s).db.committed ++ s.pending = rest) : Inv left rest (cancelTimer s) := by
  have hplace : place (cancelTimer s) = .outside := by
    have hlock : leave s.flushLock .timer = none := if_pos ((h.flushing _).mpr hf)
    rw [place]
    exact congrArg (placeOf _ · _) hlock
  constructor
  · exact h.flushing.leave id
  · exact h.writing.leave id
  · rw [hplace]
    exact hspare
  · rw [inProgress, hplace, inFlight, Rows.append_empty]
    exact hrest

theorem cancelTimer_safe (h : Inv False total s) (hsafe : Safe (s.pcs .timer)) :
    Inv False total (cancelTimer s) := by
  have hidle (hpc : ¬ Flushing (s.pcs .timer) ∧ ¬ Writing (s.pcs .timer)) :
      Inv False total (cancelTimer s) := by
    rw [cancelTimer_idle h hpc]
    exact h.idle hpc ⟨id, id⟩
  cases hpc : s.pcs .timer with
  | absent | outside | waitFlush => exact hidle (by rw [hpc]; exact ⟨id, id⟩)
  | dead | waitWrite | backoff | writing =>
      rw [hpc] at hsafe
      exact hsafe.elim
  | checkpointing =>
      obtain ⟨_, hs, hc⟩ := h.here hpc trivial
      have hspare : Spare False s := hs
      have hdb : (cancelTimer s).db = s.db := cancelTimer_db hpc
      rw [inFlight, Rows.append_empty] at hc
      refine cancelTimer_flushing h (by rw [hpc]; trivial) (hspare.of_update hdb rfl rfl id) ?_
      rw [hdb]
      exact hc
  | awaiting stage batch attempt result =>
      obtain ⟨_, hs, hc⟩ := h.here hpc trivial
      have hf : Flushing (s.pcs .timer) := by rw [hpc]; trivial
      rw [hpc] at hsafe
      cases stage with
      | commit =>
          rcases hsafe with rfl | rfl
          · have htr : s.db.transaction = some batch := hs
            have hdb : (cancelTimer s).db = ⟨s.db.committed ++ batch, none⟩ := by
              rw [cancelTimer_db hpc]
              change s.db.commit = _
              rw [Database.commit, Database.uncommitted, htr, Option.getD_some]
            refine cancelTimer_flushing h hf (Or.inl (by rw [hdb])) ?_
            rw [hdb]
            exact hc
          · have hdb : (cancelTimer s).db = s.db := cancelTimer_db hpc
            have hrows : inFlight (.awaiting .commit batch attempt (some .ok)) = ∅ := rfl
            rw [hrows, Rows.append_empty] at hc
            refine cancelTimer_flushing h hf (Or.inl (by rw [hdb]; exact hs)) ?_
            rw [hdb]
            exact hc
      | connect | insertRun | commitRun | beginImmediate | body | rollback => exact hsafe.elim

/-- With the run known, whatever a statement leaves open is never committed. -/
theorem spare_of_stage {result : Option Outcome}
    (hs : StageSound (Spare True t) t.runKnown t.db batch result stage)
    (hlive : StageLive t.conn t.runKnown stage) (hwriting : ∀ task, ¬ CallWriting (t.pcs task)) :
    Spare True t := by
  cases stage with
  | connect => exact hs
  | insertRun => exact Or.inr (Or.inl hs)
  | commitRun =>
      cases result with
      | none => exact Or.inr (Or.inl hs)
      | some result =>
          cases result with
          | ok => exact Or.inl hs
          | fails => exact Or.inr (Or.inl hs)
  | beginImmediate | body | commit | rollback => exact Or.inr (Or.inr ⟨trivial, hlive.2, hwriting⟩)

theorem spare_weaken (h : Spare False s) (hdb : t.db = s.db) (hk : t.runKnown = s.runKnown) :
    Spare True t := by
  rw [Spare, hdb, hk]
  exact Or.imp_right (Or.imp_right (fun hl => hl.1.elim)) h

theorem dropped_of_batch (h : Inv False total s) (hf : Flushing (s.pcs .timer))
    (hspare : Spare True (cancelTimer s)) (hbatch : batch ≠ ∅)
    (hc : (cancelTimer s).db.committed ++ batch ++ s.pending = total) :
    ∃ rest : Rows, rest.length < total.length ∧ Inv True rest (cancelTimer s) := by
  refine ⟨_, ?_, cancelTimer_flushing h hf hspare rfl⟩
  have hpos : batch.length ≠ 0 := fun he => hbatch (Rows.length_eq_zero_iff.mp he)
  have hlen := congrArg Rows.length hc
  rw [Rows.length_append, Rows.length_append] at hlen
  rw [Rows.length_append]
  omega

theorem stageRows_of_not_safe {result result' : Option Outcome}
    (h : ¬ Safe (.awaiting stage batch attempt result)) (hr : result = none ∨ result = result') :
    stageRows batch result' stage = batch := by
  cases stage with
  | commit =>
      rcases hr with rfl | rfl
      · exact absurd (Or.inl rfl) h
      · exact if_neg (fun he => h (Or.inr he))
  | _ => rfl

/-- Anywhere else in its flush the cancelled timer drops its batch. -/
theorem cancelTimer_drops (h : Inv False total s) (hlive : Live s) (hf : Flushing (s.pcs .timer))
    (hnot : ¬ Safe (s.pcs .timer)) :
    ∃ rest : Rows, rest.length < total.length ∧ Inv True rest (cancelTimer s) := by
  have waiting {batch : Rows} (hdb : (cancelTimer s).db = s.db) (hspare : Spare False s)
      (hbatch : batch ≠ ∅) (hc : s.db.committed ++ batch ++ s.pending = total) :
      ∃ rest : Rows, rest.length < total.length ∧ Inv True rest (cancelTimer s) :=
    dropped_of_batch h hf (spare_weaken hspare hdb rfl) hbatch (by rw [hdb]; exact hc)
  cases hpc : s.pcs .timer with
  | absent | outside | dead | waitFlush | writing =>
      rw [hpc] at hf
      exact hf.elim
  | checkpointing =>
      rw [hpc] at hnot
      exact absurd trivial hnot
  | waitWrite | backoff =>
      obtain ⟨_, hs, hc⟩ := h.here hpc trivial
      exact waiting (cancelTimer_db hpc) hs (hlive.here hpc) hc
  | awaiting stage batch attempt result =>
      obtain ⟨_, hs, hc⟩ := h.here hpc trivial
      obtain ⟨hbatch, hstage⟩ := hlive.here hpc
      rw [hpc] at hnot
      have hwriting : ∀ task, ¬ CallWriting ((cancelTimer s).pcs task) := by
        intro task
        by_cases ht : task = .timer
        · rw [ht, cancelTimer, cancel, setPc_pcs]
          exact id
        · rw [cancelTimer_other s ht]
          exact h.not_writing hpc task
      cases result with
      | none =>
          have hdb : (cancelTimer s).db = (s.db.execute .ok stage).1 := cancelTimer_db hpc
          have hkeep : Spare False s → (s.db.execute .ok stage).1 = s.db →
              Spare True (cancelTimer s) :=
            fun hspare hsame => spare_weaken hspare (hdb.trans hsame) rfl
          obtain ⟨hsound, hcommitted⟩ := execute_sound .ok hs hkeep
          rw [stageRows_of_not_safe hnot (Or.inl rfl), ← hdb] at hcommitted
          rw [← hdb] at hsound
          rw [inFlight, stageRows_none, ← hcommitted] at hc
          exact dropped_of_batch h hf (spare_of_stage hsound hstage hwriting) hbatch hc
      | some result =>
          have hdb : (cancelTimer s).db = s.db := cancelTimer_db hpc
          have hsound : StageSound (Spare True (cancelTimer s)) (cancelTimer s).runKnown
              (cancelTimer s).db batch (some result) stage := by
            rw [hdb]
            have hpcs : Sound (Spare False s) s.runKnown s.db
                (.awaiting stage batch attempt (some result)) := hs
            exact hpcs.mono (fun hspare => spare_weaken hspare hdb rfl)
          rw [inFlight, stageRows_of_not_safe hnot (Or.inr rfl), ← hdb] at hc
          exact dropped_of_batch h hf (spare_of_stage hsound hstage hwriting) hbatch hc

/-- close() either raises, or cancels the timer and starts its own flush. -/
theorem step_close {s : State} {t : Closing} (h : Inv left total s)
    (hstep : closeStep batchSize ⟨s, .notBegun⟩ .close = some t) :
    (s.pcs .timer = .dead ∧ t = ⟨s, .raised⟩) ∨ (s.pcs .timer ≠ .dead ∧
      t = ⟨(cancelTimer s).setPc .closer .waitFlush, .flushing⟩) := by
  cases hpc : s.pcs .timer with
  | dead =>
      simp only [closeStep, hpc] at hstep
      exact Or.inl ⟨rfl, (Option.some.inj hstep).symm⟩
  | absent =>
      have hidle : cancelTimer s = s := by
        rw [cancelTimer_idle h (by rw [hpc]; exact ⟨id, id⟩)]
        exact setPc_self hpc
      simp only [closeStep, hpc] at hstep
      exact Or.inr ⟨by simp, hidle.symm ▸ (Option.some.inj hstep).symm⟩
  | _ =>
      simp only [closeStep, hpc] at hstep
      exact Or.inr ⟨by simp, (Option.some.inj hstep).symm⟩

theorem startFlush_inv {rest : Rows} (hcloser : s.pcs .closer = .outside)
    (h : Inv left rest (cancelTimer s)) :
    Inv left rest ((cancelTimer s).setPc .closer .waitFlush) := by
  have hpc : (cancelTimer s).pcs .closer = .outside :=
    (cancelTimer_other s (by simp)).trans hcloser
  exact h.idle (by rw [hpc]; exact ⟨id, id⟩) ⟨id, id⟩

end cancel

end Blockchecks.StoreClose
