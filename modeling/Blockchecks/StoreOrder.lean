import Blockchecks.StoreSteps

namespace Blockchecks.StoreOrder

open Runs Locks StoreFlush StoreSteps

def stageRows (batch : Rows) (result : Option Outcome) : Stage → Rows
  | .commit => if result = some .ok then ∅ else batch
  | .connect | .insertRun | .commitRun | .beginImmediate | .body _ _ | .rollback _ => batch

/-- The rows of a flush that are neither committed nor put back. -/
def inFlight : Pc → Rows
  | .waitWrite batch _ | .backoff batch _ => batch
  | .awaiting stage batch _ result => stageRows batch result stage
  | .absent | .outside | .dead | .waitFlush | .checkpointing | .writing => ∅

def place (s : State) : Pc := placeOf .outside s.flushLock s.pcs

def inProgress (s : State) : Rows := inFlight (place s)

def logged : Action → Rows
  | .log _ call _ => call.rows
  | _ => ∅

def loggedBy : List Action → Rows
  | [] => ∅
  | a :: as => logged a ++ loggedBy as

/-- What the transaction of the writer holds while a flush waits for a statement. -/
def StageSound (idle : Prop) (known : Bool) (db : Database) (batch : Rows)
    (result : Option Outcome) : Stage → Prop
  | .connect => idle
  | .insertRun => known = false ∧ db.uncommitted = ∅
  | .commitRun => match result with
      | some .ok => db.transaction = none
      | _ => known = false ∧ db.uncommitted = ∅
  | .beginImmediate => match result with
      | some .ok => db.transaction = some ∅
      | _ => idle
  | .body op rest => match result with
      | none => ∃ done, db.transaction = some done ∧ done ++ rowsOf (op :: rest) = batch
      | some .ok => ∃ done, db.transaction = some done ∧ done ++ rowsOf rest = batch
      | some (.fails _ _) => True
  | .commit => match result with
      | none => db.transaction = some batch
      | some .ok => db.transaction = none
      | some (.fails _ _) => True
  | .rollback _ => match result with
      | none => True
      | some _ => db.transaction = none

def Sound (idle : Prop) (known : Bool) (db : Database) : Pc → Prop
  | .awaiting stage batch _ result => StageSound idle known db batch result stage
  | _ => idle

/-- Between the flushes no transaction is open, or an empty one that ends with
the row of the run. One that was left behind nobody is about to commit. -/
def Spare (left : Prop) (s : State) : Prop :=
  s.db.transaction = none ∨ (s.runKnown = false ∧ s.db.uncommitted = ∅) ∨
    (left ∧ s.runKnown = true ∧ ∀ task, ¬ CallWriting (s.pcs task))

structure Inv (left : Prop) (total : Rows) (s : State) : Prop where
  flushing : Guards Flushing s.flushLock s.pcs
  writing : Guards Writing s.writeLock s.pcs
  transaction : Sound (Spare left s) s.runKnown s.db (place s)
  conserved : s.db.committed ++ inProgress s ++ s.pending = total

variable {left : Prop} {total : Rows} {s t : State} {task : Task} {pc : Pc} {batchSize : ℕ+}
  {stage : Stage} {batch : Rows} {attempt : Nat}

theorem Sound.of_idle {idle : Prop} {known : Bool} {db : Database} (h : idle)
    (hpc : ¬ Writing pc) : Sound idle known db pc := by
  cases pc with
  | awaiting => exact absurd trivial hpc
  | _ => exact h

theorem Sound.idle {idle : Prop} {known : Bool} {db : Database} (h : Sound idle known db pc)
    (hpc : ¬ Writing pc) : idle := by
  cases pc with
  | awaiting => exact absurd trivial hpc
  | _ => exact h

theorem Sound.mono {idle idle' : Prop} {known : Bool} {db : Database} (h : Sound idle known db pc)
    (hidle : idle → idle') : Sound idle' known db pc := by
  cases pc with
  | awaiting stage batch attempt result =>
      cases stage with
      | connect => exact hidle h
      | beginImmediate =>
          cases result with
          | none => exact hidle h
          | some result =>
              cases result with
              | ok => exact h
              | fails => exact hidle h
      | _ => exact h
  | _ => exact hidle h

theorem Spare.of_update (h : Spare left s) (hdb : t.db = s.db) (hk : t.runKnown = s.runKnown)
    (hpcs : t.pcs = Function.update s.pcs task pc) (hpc : ¬ CallWriting pc) : Spare left t := by
  rw [Spare, hdb, hk]
  refine Or.imp_right (Or.imp_right (And.imp_right (And.imp_right ?_))) h
  intro hnone other
  rw [hpcs]
  by_cases ho : other = task
  · rw [ho, Function.update_self]
    exact hpc
  · rw [Function.update_of_ne ho]
    exact hnone other

/-- While a flush waits for a statement no other call is writing. -/
theorem Inv.not_writing {stage : Stage} {batch : Rows} {attempt : Nat} {result : Option Outcome}
    (h : Inv left total s) (hpc : s.pcs task = .awaiting stage batch attempt result) (other : Task) :
    ¬ CallWriting (s.pcs other) := by
  intro ho
  have he : other = task := h.writing.unique (by rw [hpc]; trivial) ho.writing
  rw [he, hpc] at ho
  exact ho

/-- The invariant as seen by the task under the flush lock. -/
theorem Inv.here (h : Inv left total s) (hpc : s.pcs task = pc) (hf : Flushing pc) :
    s.flushLock = some task ∧ Sound (Spare left s) s.runKnown s.db pc ∧
      s.db.committed ++ inFlight pc ++ s.pending = total := by
  have hlock : s.flushLock = some task := (h.flushing task).mpr (hpc ▸ hf)
  have hplace : place s = pc := (placeOf_of_holder hlock).trans hpc
  refine ⟨hlock, hplace ▸ h.transaction, ?_⟩
  have hc := h.conserved
  rwa [inProgress, hplace] at hc

/-- A step of the task under the flush lock that stays under it. -/
theorem Inv.advance (h : Inv left total s) (hf : Flushing (s.pcs task))
    (hlock : t.flushLock = s.flushLock) (hpcs : t.pcs = Function.update s.pcs task pc)
    (hpc : Flushing pc) (hwriting : Guards Writing t.writeLock t.pcs)
    (hsound : Sound (Spare left t) t.runKnown t.db pc)
    (hconserved : t.db.committed ++ inFlight pc ++ t.pending = total) : Inv left total t := by
  have hholder : s.flushLock = some task := (h.flushing task).mpr hf
  have hplace : place t = pc := by
    rw [place, hlock, hpcs]
    exact placeOf_move_self hholder
  constructor
  · rw [hlock, hpcs]
    exact h.flushing.move (iff_of_true hpc hf)
  · exact hwriting
  · rw [hplace]
    exact hsound
  · rw [inProgress, hplace]
    exact hconserved

/-- A step with which the task leaves the flush lock. -/
theorem Inv.leave (h : Inv left total s) (hf : Flushing (s.pcs task))
    (hlock : t.flushLock = none) (hpcs : t.pcs = Function.update s.pcs task pc)
    (hpc : ¬ Flushing pc) (hwriting : Guards Writing t.writeLock t.pcs) (hspare : Spare left t)
    (hconserved : t.db.committed ++ t.pending = total) : Inv left total t := by
  have hplace : place t = .outside := by rw [place, hlock]; rfl
  constructor
  · rw [hlock, hpcs]
    exact h.flushing.release hf hpc
  · exact hwriting
  · rw [hplace]
    exact hspare
  · rw [inProgress, hplace, inFlight, Rows.append_empty]
    exact hconserved

/-- A step of a task outside the flush lock that stays outside. -/
theorem Inv.idle (h : Inv left total s) (hold : ¬ Flushing (s.pcs task) ∧ ¬ Writing (s.pcs task))
    (hnew : ¬ Flushing pc ∧ ¬ Writing pc) : Inv left total (s.setPc task pc) := by
  have hplace : place (s.setPc task pc) = place s := h.flushing.place_move_other hold.1
  constructor
  · exact h.flushing.move (iff_of_false hnew.1 hold.1)
  · exact h.writing.move (iff_of_false hnew.2 hold.2)
  · rw [hplace]
    refine h.transaction.mono (fun hs => hs.of_update rfl rfl rfl ?_)
    exact fun hw => hnew.2 hw.writing
  · rw [inProgress, hplace]
    exact h.conserved

theorem opening_sound {idle : Prop} (hidle : idle)
    (hknown : s.runKnown = false → s.db.uncommitted = ∅) :
    StageSound idle s.runKnown s.db batch none s.opening ∧
      StageSound idle s.runKnown s.db batch none s.afterConnect := by
  have hafter : StageSound idle s.runKnown s.db batch none s.afterConnect := by
    rw [State.afterConnect]
    cases hk : s.runKnown with
    | true => exact hidle
    | false => exact ⟨rfl, hknown hk⟩
  refine ⟨?_, hafter⟩
  rw [State.opening]
  split
  · exact hafter
  · exact hidle

theorem bodyStage_sound {idle : Prop} {known : Bool} {db : Database} {done : Rows}
    {rest : List Stmt} (htr : db.transaction = some done) (hdone : done ++ rowsOf rest = batch) :
    StageSound idle known db batch none (bodyStage rest) := by
  cases rest with
  | nil =>
      rw [rowsOf, Rows.append_empty] at hdone
      rw [bodyStage, StageSound, htr, hdone]
  | cons op rest => exact ⟨done, htr, hdone⟩

theorem stageRows_none (batch : Rows) (stage : Stage) : stageRows batch none stage = batch := by
  cases stage <;> rfl

theorem uncommitted_of_none {db : Database} (h : db.transaction = none) : db.uncommitted = ∅ := by
  rw [Database.uncommitted, h]
  rfl

theorem Spare.uncommitted (h : Spare left s) (hk : s.runKnown = false) : s.db.uncommitted = ∅ := by
  rcases h with h | h | ⟨_, hknown, _⟩
  · exact uncommitted_of_none h
  · exact h.2
  · rw [hk] at hknown
    cases hknown

theorem Inv.drain (h : Inv left total s) (hpc : s.pcs task = .waitFlush)
    (hlock : s.flushLock = none) : Inv left total (s.drain task) := by
  have hidle : place s = .outside := by rw [place, hlock]; rfl
  have hplace : place (s.drain task) = .waitWrite s.pending 0 := placeOf_acquire
  have hs := h.transaction
  have hc := h.conserved
  rw [hidle] at hs
  rw [inProgress, hidle, inFlight, Rows.append_empty] at hc
  constructor
  · have hf := h.flushing
    rw [hlock] at hf
    exact hf.acquire trivial
  · exact h.writing.move (by rw [hpc]; exact Iff.rfl)
  · rw [hplace]
    exact Spare.of_update hs rfl rfl rfl id
  · rw [inProgress, hplace, inFlight]
    exact (Rows.append_empty _).trans hc

theorem Inv.acquireWrite (h : Inv left total s) (hpc : s.pcs task = .waitWrite batch attempt)
    (hlock : s.writeLock = none) : Inv left total (s.acquireWrite task batch attempt) := by
  obtain ⟨_, hs, hc⟩ := h.here hpc trivial
  have hspare : Spare left (s.acquireWrite task batch attempt) := hs.of_update rfl rfl rfl id
  refine h.advance (by rw [hpc]; trivial) rfl rfl trivial ?_ ?_ ?_
  · have hw := h.writing
    rw [hlock] at hw
    exact hw.acquire trivial
  · exact (opening_sound hspare hspare.uncommitted).1
  · rw [inFlight, stageRows_none]
    exact hc

/-- One statement keeps the transaction sound, and commits the batch as a whole
with COMMIT only. -/
theorem execute_sound {idle idle' : Prop} {known : Bool} {db : Database} (outcome : Outcome)
    (h : StageSound idle known db batch none stage)
    (hidle : idle → (db.execute outcome stage).1 = db → idle') :
    StageSound idle' known (db.execute outcome stage).1 batch
        (some (db.execute outcome stage).2) stage ∧
      (db.execute outcome stage).1.committed ++
        stageRows batch (some (db.execute outcome stage).2) stage = db.committed ++ batch := by
  cases stage with
  | connect => exact ⟨hidle h rfl, rfl⟩
  | insertRun =>
      have hwrite : (db.write ∅).uncommitted = ∅ := (Rows.append_empty _).trans h.2
      cases outcome with
      | ok => exact ⟨⟨h.1, hwrite⟩, rfl⟩
      | fails failure progress =>
          simp only [Database.execute]
          split
          · exact ⟨h, rfl⟩
          · exact ⟨⟨h.1, hwrite⟩, rfl⟩
  | commitRun =>
      cases outcome with
      | ok =>
          refine ⟨rfl, ?_⟩
          simp only [Database.execute, Database.commit, h.2, Rows.append_empty, stageRows]
      | fails => exact ⟨h, rfl⟩
  | beginImmediate =>
      cases outcome with
      | ok =>
          cases htr : db.transaction with
          | none =>
              simp only [Database.execute, htr]
              exact ⟨rfl, rfl⟩
          | some rows =>
              simp only [Database.execute, htr] at hidle ⊢
              exact ⟨hidle h trivial, rfl⟩
      | fails => exact ⟨hidle h rfl, rfl⟩
  | body op rest =>
      obtain ⟨done, htr, hdone⟩ := h
      cases outcome with
      | ok =>
          refine ⟨⟨done ++ op.rows, ?_, ?_⟩, rfl⟩
          · simp only [Database.execute, Database.write, Database.uncommitted, htr, Option.getD_some]
          · rw [Rows.append_assoc]
            exact hdone
      | fails => exact ⟨trivial, rfl⟩
  | commit =>
      cases outcome with
      | ok =>
          refine ⟨rfl, ?_⟩
          have htr : db.transaction = some batch := h
          simp only [Database.execute, Database.commit, Database.uncommitted, htr, stageRows,
            Option.getD_some, if_true, Rows.append_empty]
      | fails => exact ⟨trivial, by simp [Database.execute, stageRows]⟩
  | rollback failure => exact ⟨rfl, rfl⟩

theorem Inv.execute (h : Inv left total s) (hpc : s.pcs task = .awaiting stage batch attempt none)
    (outcome : Outcome) : Inv left total (s.execute task stage batch attempt outcome) := by
  obtain ⟨_, hs, hc⟩ := h.here hpc trivial
  have hkeep : Spare left s → (s.db.execute outcome stage).1 = s.db →
      Spare left (s.execute task stage batch attempt outcome) :=
    fun hspare hdb => hspare.of_update hdb rfl rfl id
  have hexec := execute_sound outcome hs hkeep
  refine h.advance (by rw [hpc]; trivial) rfl rfl trivial ?_ hexec.1 ?_
  · exact h.writing.move (by rw [hpc]; exact Iff.rfl)
  · rw [inFlight, stageRows_none] at hc
    rw [← hc]
    exact congrArg (· ++ s.pending) hexec.2

theorem Inv.fail {result : Option Outcome} (h : Inv left total s)
    (hpc : s.pcs task = .awaiting stage batch attempt result) (hspare : Spare left s)
    (hrows : stageRows batch result stage = batch) (failure : Failure) :
    Inv left total (s.fail task batch attempt failure) := by
  obtain ⟨_, _, hc⟩ := h.here hpc trivial
  have hf : Flushing (s.pcs task) := by rw [hpc]; trivial
  have hw : Writing (s.pcs task) := by rw [hpc]; trivial
  rw [inFlight, hrows] at hc
  rw [State.fail]
  split
  · exact h.advance hf rfl rfl trivial (h.writing.release hw id) (hspare.of_update rfl rfl rfl id) hc
  · have hraised : ¬ Flushing (if task = Task.timer then .dead else .outside) ∧
        ¬ Writing (if task = Task.timer then .dead else .outside) := by
      split <;> exact ⟨id, id⟩
    refine h.leave hf rfl rfl hraised.1 (h.writing.release hw hraised.2) ?_ ?_
    · exact hspare.of_update rfl rfl rfl (fun hw => hraised.2 hw.writing)
    · exact (Rows.append_assoc ..).symm.trans hc

theorem Inv.flushed (h : Inv left total s)
    (hpc : s.pcs task = .awaiting .commit batch attempt (some .ok)) :
    Inv left total (s.flushed task) := by
  obtain ⟨_, hs, hc⟩ := h.here hpc trivial
  have hf : Flushing (s.pcs task) := by rw [hpc]; trivial
  have hw : Writing (s.pcs task) := by rw [hpc]; trivial
  have hspare : Spare left s := Or.inl hs
  have hrows : inFlight (.awaiting .commit batch attempt (some .ok)) = ∅ := rfl
  rw [hrows, Rows.append_empty] at hc
  rw [State.flushed]
  split
  · exact h.leave hf rfl rfl id (h.writing.release hw id) (hspare.of_update rfl rfl rfl id) hc
  · refine h.advance hf rfl rfl trivial (h.writing.release hw id)
      (hspare.of_update rfl rfl rfl id) ?_
    rw [inFlight, Rows.append_empty]
    exact hc

/-- Going on to the next statement. -/
theorem Inv.next {result : Option Outcome} {stage' : Stage} (h : Inv left total s)
    (hpc : s.pcs task = .awaiting stage batch attempt result)
    (hrows : stageRows batch result stage = batch) (hlock : t.flushLock = s.flushLock)
    (hwrite : t.writeLock = s.writeLock)
    (hpcs : t.pcs = Function.update s.pcs task (.awaiting stage' batch attempt none))
    (hsound : StageSound (Spare left t) t.runKnown t.db batch none stage')
    (hrest : t.db.committed = s.db.committed ∧ t.pending = s.pending) : Inv left total t := by
  obtain ⟨_, _, hc⟩ := h.here hpc trivial
  refine h.advance (by rw [hpc]; trivial) hlock hpcs trivial ?_ hsound ?_
  · rw [hwrite, hpcs]
    exact h.writing.move (by rw [hpc]; exact Iff.rfl)
  · rw [inFlight, hrows] at hc
    rw [hrest.1, hrest.2, inFlight, stageRows_none]
    exact hc

theorem Inv.resume {result : Outcome} (h : Inv left total s)
    (hpc : s.pcs task = .awaiting stage batch attempt (some result)) :
    Inv left total (s.resume task stage batch attempt result) := by
  obtain ⟨_, hs, _⟩ := h.here hpc trivial
  cases result with
  | ok =>
      cases stage with
      | connect =>
          have hspare : Spare left s := hs
          refine h.next hpc rfl rfl rfl rfl ?_ ⟨rfl, rfl⟩
          refine (opening_sound ?_ hspare.uncommitted).2
          exact hspare.of_update rfl rfl rfl id
      | insertRun => exact h.next hpc rfl rfl rfl rfl hs ⟨rfl, rfl⟩
      | commitRun => exact h.next hpc rfl rfl rfl rfl (Or.inl hs) ⟨rfl, rfl⟩
      | beginImmediate =>
          refine h.next hpc rfl rfl rfl rfl (bodyStage_sound hs ?_) ⟨rfl, rfl⟩
          exact rowsOf_statements batch
      | body op rest =>
          obtain ⟨done, htr, hdone⟩ := hs
          exact h.next hpc rfl rfl rfl rfl (bodyStage_sound htr hdone) ⟨rfl, rfl⟩
      | commit => exact h.flushed hpc
      | rollback failure => exact h.fail hpc (Or.inl hs) rfl failure
  | fails failure progress =>
      cases stage with
      | connect => exact h.fail hpc hs rfl failure
      | insertRun => exact h.fail hpc (Or.inr (Or.inl hs)) rfl failure
      | commitRun => exact h.fail hpc (Or.inr (Or.inl hs)) rfl failure
      | beginImmediate => exact h.fail hpc hs rfl failure
      | body op rest => exact h.next hpc rfl rfl rfl rfl trivial ⟨rfl, rfl⟩
      | commit => exact h.next hpc rfl rfl rfl rfl trivial ⟨rfl, rfl⟩
      | rollback _ => exact h.fail hpc (Or.inl hs) rfl failure

theorem Inv.ensureTimer (h : Inv left total s) : Inv left total s.ensureTimer := by
  rw [State.ensureTimer]
  split
  next hpc => exact h.idle (by rw [hpc]; exact ⟨id, id⟩) ⟨id, id⟩
  · exact h

theorem Inv.append (h : Inv left total s) (call : LogCall) :
    Inv left (total ++ call.rows) (s.append call) := by
  have hlogged : Inv left (total ++ call.rows) { s with pending := s.pending ++ call.rows } := by
    refine ⟨h.flushing, h.writing, h.transaction, ?_⟩
    rw [← h.conserved]
    exact (Rows.append_assoc ..).symm
  exact hlogged.ensureTimer

theorem Inv.log (h : Inv left total s) (call : LogCall) {n : Nat} (hpc : s.pcs (.call n) = .outside)
    (hnew : pc = .outside ∨ pc = .waitFlush) :
    Inv left (total ++ call.rows) ((s.append call).setPc (.call n) pc) := by
  refine (h.append call).idle ?_ ?_
  · rw [append_pcs_call, hpc]
    exact ⟨id, id⟩
  · rcases hnew with rfl | rfl <;> exact ⟨id, id⟩

theorem Inv.wake (h : Inv left total s) (hpc : s.pcs task = .backoff batch attempt) :
    Inv left total (s.setPc task (.waitWrite batch (attempt + 1))) := by
  obtain ⟨_, hs, hc⟩ := h.here hpc trivial
  have hspare : Spare left s := hs
  exact h.advance (by rw [hpc]; trivial) rfl rfl trivial (h.writing.move (by rw [hpc]; exact Iff.rfl))
    (hspare.of_update rfl rfl rfl id) hc

theorem Inv.release (h : Inv left total s) (hpc : s.pcs task = .checkpointing) :
    Inv left total (s.release task) := by
  obtain ⟨_, hs, hc⟩ := h.here hpc trivial
  have hspare : Spare left s := hs
  rw [inFlight, Rows.append_empty] at hc
  exact h.leave (by rw [hpc]; trivial) rfl rfl id (h.writing.move (by rw [hpc]; exact Iff.rfl))
    (hspare.of_update rfl rfl rfl id) hc

theorem Inv.lockWrite (h : Inv left total s) (hleft : ¬ left) {n : Nat}
    (hpc : s.pcs (.call n) = .outside) (hlock : s.writeLock = none) :
    Inv left total (s.lockWrite n) := by
  have hidle : ¬ Flushing (s.pcs (.call n)) := by rw [hpc]; exact id
  have hplace : place (s.lockWrite n) = place s := h.flushing.place_move_other hidle
  constructor
  · exact h.flushing.move (iff_of_false id hidle)
  · have hw := h.writing
    rw [hlock] at hw
    exact hw.acquire trivial
  · rw [hplace]
    refine h.transaction.mono (Or.imp_right (fun hs => Or.inl ?_))
    exact hs.resolve_right (fun hl => hleft hl.1)
  · rw [inProgress, hplace]
    exact h.conserved

theorem Inv.unlockWrite (h : Inv left total s) {n : Nat} (hpc : s.pcs (.call n) = .writing)
    (commits : Bool) : Inv left total (s.unlockWrite n commits) := by
  have hidle : ¬ Flushing (s.pcs (.call n)) := by rw [hpc]; exact id
  have hw : Writing (s.pcs (.call n)) := by rw [hpc]; trivial
  have hplace : place (s.unlockWrite n commits) = place s := h.flushing.place_move_other hidle
  have hfree : ¬ Writing (place s) := by
    intro hwriting
    rcases h.flushing.place_cases .outside with ⟨_, hp⟩ | ⟨task, _, hf, hp⟩
    · rw [place, hp] at hwriting
      exact hwriting
    · rw [place, hp] at hwriting
      rw [h.writing.unique hw hwriting] at hf
      exact hidle hf
  have hspare : Spare left s := h.transaction.idle hfree
  have hempty : s.db.uncommitted = ∅ := by
    rcases hspare with hnone | hrun | hl
    · exact uncommitted_of_none hnone
    · exact hrun.2
    · exact absurd (by rw [hpc]; trivial) (hl.2.2 (.call n))
  constructor
  · exact h.flushing.move (iff_of_false id hidle)
  · exact h.writing.release hw id
  · rw [hplace]
    refine Sound.of_idle ?_ hfree
    cases commits with
    | true => exact Or.inl rfl
    | false => exact hspare.of_update rfl rfl rfl id
  · rw [inProgress, hplace]
    cases commits with
    | true =>
        have hcommit : s.db.commit.committed = s.db.committed :=
          (congrArg (s.db.committed ++ ·) hempty).trans (Rows.append_empty _)
        exact (congrArg (· ++ inProgress s ++ s.pending) hcommit).trans h.conserved
    | false => exact h.conserved

/-- Where a transaction may have been left behind, no other call starts to write. -/
theorem step_inv {a : Action} (h : Inv left total s) (hstep : step batchSize s a = some t)
    (hleft : left → ∀ n, a ≠ .lockWrite n) : Inv left (total ++ logged a) t := by
  have hquiet : logged a = ∅ → Inv left total t → Inv left (total ++ logged a) t := by
    intro he ht
    rw [he, Rows.append_empty]
    exact ht
  cases moves_of_step hstep with
  | log call aged hpc hnew => exact h.log call hpc hnew
  | flush hpc => exact hquiet rfl (h.idle (by rw [hpc]; exact ⟨id, id⟩) ⟨id, id⟩)
  | sleep _ _ => exact hquiet rfl h
  | wakeTimer hpc _ => exact hquiet rfl (h.idle (by rw [hpc]; exact ⟨id, id⟩) ⟨id, id⟩)
  | nothing hpc _ _ => exact hquiet rfl (h.idle (by rw [hpc]; exact ⟨id, id⟩) ⟨id, id⟩)
  | drain hpc hlock _ => exact hquiet rfl (h.drain hpc hlock)
  | acquireWrite hpc hlock => exact hquiet rfl (h.acquireWrite hpc hlock)
  | execute outcome hpc => exact hquiet rfl (h.execute hpc outcome)
  | resume hpc => exact hquiet rfl (h.resume hpc)
  | wake hpc => exact hquiet rfl (h.wake hpc)
  | endCheckpoint hpc => exact hquiet rfl (h.release hpc)
  | lockWrite hpc hlock => exact hquiet rfl (h.lockWrite (fun hl => hleft hl _ rfl) hpc hlock)
  | unlockWrite commits hpc => exact hquiet rfl (h.unlockWrite hpc commits)

theorem start_inv (conn runKnown : Bool) : Inv left ∅ (start conn runKnown) := by
  have hpcs : ∀ task, ¬ Flushing ((start conn runKnown).pcs task) ∧
      ¬ Writing ((start conn runKnown).pcs task) := by
    intro task
    cases task <;> exact ⟨id, id⟩
  constructor
  · exact fun task => iff_of_false (Option.some_ne_none task).symm (hpcs task).1
  · exact fun task => iff_of_false (Option.some_ne_none task).symm (hpcs task).2
  · exact Or.inl rfl
  · rfl

theorem run_inv {actions : List Action} (h : Inv left total s)
    (hrun : run (step batchSize) s actions = some t)
    (hleft : left → ∀ n, .lockWrite n ∉ actions) : Inv left (total ++ loggedBy actions) t := by
  induction actions generalizing s total with
  | nil =>
      rw [loggedBy, Rows.append_empty]
      exact Option.some.inj hrun ▸ h
  | cons a actions ih =>
      obtain ⟨u, hu, hrun⟩ := run_cons_eq_some.mp hrun
      have hnext : Inv left (total ++ logged a) u := by
        refine step_inv h hu ?_
        intro hl n he
        exact hleft hl n (he ▸ List.mem_cons_self)
      have hlast := ih hnext hrun (fun hl n hmem => hleft hl n (List.mem_cons_of_mem _ hmem))
      rwa [Rows.append_assoc] at hlast

/-- In every interleaving the committed rows, the rows of the one flush in
progress and the pending rows are what was logged, in its order. -/
theorem rows_once_in_order {conn runKnown : Bool} {actions : List Action}
    (h : run (step batchSize) (start conn runKnown) actions = some s) :
    s.db.committed ++ inProgress s ++ s.pending = loggedBy actions ∧
      ∀ task, inFlight (s.pcs task) ≠ ∅ → inFlight (s.pcs task) = inProgress s := by
  have hinv : Inv False (∅ ++ loggedBy actions) s :=
    run_inv (start_inv conn runKnown) h (fun hl => hl.elim)
  refine ⟨hinv.conserved, ?_⟩
  intro task hrows
  have hf : Flushing (s.pcs task) := by
    cases hpc : s.pcs task with
    | waitWrite | awaiting | backoff | checkpointing => trivial
    | absent | outside | dead | waitFlush | writing =>
        rw [hpc] at hrows
        exact hrows rfl
  rw [inProgress, place, hinv.flushing.place_eq hf]

def twoRows : ℕ+ := ⟨2, Nat.two_pos⟩

def passOf (domain : String) : LogCall := .tcp "fake" "tcp" "" { domain := domain, status := .pass }

/-- A statement of the task that succeeds, and the step after it. -/
def succeed (task : Task) : List Action := [.execute task .ok, .resume task]

/-- A flush that is rolled back in a locked database and gives up at its second
BEGIN IMMEDIATE, while a third row is logged. -/
def lockedFlush : List Action :=
  [.log 0 (passOf "a.example") false, .log 1 (passOf "b.example") false, .acquireFlush (.call 1),
    .log 2 (passOf "c.example") false, .acquireWrite (.call 1)] ++
  succeed (.call 1) ++ succeed (.call 1) ++ succeed (.call 1) ++ succeed (.call 1) ++
  succeed (.call 1) ++
  [.execute (.call 1) (.fails .locked 1), .resume (.call 1)] ++ succeed (.call 1) ++
  [.wake (.call 1), .acquireWrite (.call 1), .execute (.call 1) (.fails .other 0), .resume (.call 1)]

theorem lockedFlush_in_order : ∃ s, run (step twoRows) (start false false) lockedFlush = some s ∧
    s.pending.length = 3 ∧ s.db.committed ++ inProgress s ++ s.pending = loggedBy lockedFlush ∧
      ∀ task, inFlight (s.pcs task) ≠ ∅ → inFlight (s.pcs task) = inProgress s := by
  have hrun : (run (step twoRows) (start false false) lockedFlush).any
      (fun s => s.pending.length = 3) = true := by decide +kernel
  obtain ⟨s, hs, hlen⟩ := (Option.any_eq_true _ _).mp hrun
  exact ⟨s, hs, of_decide_eq_true hlen, rows_once_in_order hs⟩

end Blockchecks.StoreOrder
