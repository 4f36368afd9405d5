import Blockchecks.StoreFinish

namespace Blockchecks.StoreCloseRuns

open Runs Locks StoreFlush StoreSteps StoreOrder StoreLive StoreClose StoreFinish

variable {batchSize : ℕ+} {total : Rows}

/-- close() has raised the exception of the dead timer. -/
structure Raised (total : Rows) (s : Closing) : Prop where
  phase : s.phase = .raised
  live : Live s.store
  short : Short total s.store

theorem step_raised {s t : Closing} {a : CloseAction} (h : Raised total s) (hquiet : Quiet a)
    (hstep : closeStep batchSize s a = some t) : Raised total t := by
  have hphase : s.phase ≠ .notBegun := by simp [h.phase]
  rcases step_begun hphase hquiet hstep with ⟨b, u, rfl, hu, rfl⟩ | ⟨_, hp, _⟩
  · have hmoves := moves_of_step hu
    have hshort := step_short h.live hmoves h.short
    rw [hquiet.logged, Rows.append_empty] at hshort
    exact ⟨h.phase, step_live h.live hmoves, hshort⟩
  · rw [h.phase] at hp
    cases hp

/-- What is left of the rows when the batch of the cancelled timer is dropped. -/
structure Dropped (rest : Rows) (s : Closing) : Prop where
  phase : s.phase = .flushing ∨ s.phase = .finished
  inv : Inv True rest s.store

theorem step_dropped {rest : Rows} {s t : Closing} {a : CloseAction} (h : Dropped rest s)
    (hquiet : Quiet a) (hstep : closeStep batchSize s a = some t) : Dropped rest t := by
  have hphase : s.phase ≠ .notBegun := by
    rcases h.phase with hp | hp <;> simp [hp]
  rcases step_begun hphase hquiet hstep with ⟨b, u, rfl, hu, rfl⟩ | ⟨_, _, _, hlock, rfl⟩
  · have hinv := step_inv h.inv hu (fun _ => hquiet.not_lockWrite)
    rw [hquiet.logged, Rows.append_empty] at hinv
    exact ⟨h.phase, hinv⟩
  · exact ⟨Or.inr rfl, closeWriter_inv h.inv hlock⟩

theorem Raised.not_closed {s : Closing} (h : Raised total s) :
    ¬ (s.store.db.committed = total ∧ s.store.conn = false) := by
  rintro ⟨hall, hconn⟩
  rcases h.short with hopen | hlt
  · rw [hconn] at hopen
    cases hopen
  · rw [hall] at hlt
    exact Nat.lt_irrefl _ hlt

theorem Dropped.not_committed {rest : Rows} {s : Closing} (h : Dropped rest s)
    (hlt : rest.length < total.length) : s.store.db.committed ≠ total := by
  intro hall
  have hlen := congrArg Rows.length h.inv.conserved
  rw [hall, Rows.length_append, Rows.length_append] at hlen
  omega

/-- The flush of close() starts with nothing lost. -/
theorem kept_of_safe {s : State} (h : Serving total s) (hsafe : Safe (s.pcs .timer)) :
    Kept total ⟨(cancelTimer s).setPc .closer .waitFlush, .flushing⟩ := by
  refine ⟨startFlush_inv h.closer (cancelTimer_safe h.inv hsafe), ?_, ?_, Or.inl rfl⟩
  · exact (cancelTimer_live h.live).update id id rfl trivial
  · rw [setPc_pcs]
    trivial

theorem dropped_of_not_safe {s : State} (h : Serving total s) (hdead : s.pcs .timer ≠ .dead)
    (hnot : ¬ Safe (s.pcs .timer)) : ∃ rest : Rows, rest.length < total.length ∧
      Dropped rest ⟨(cancelTimer s).setPc .closer .waitFlush, .flushing⟩ := by
  have hflushing : Flushing (s.pcs .timer) := by
    cases hpc : s.pcs .timer with
    | absent | outside | waitFlush =>
        rw [hpc] at hnot
        exact absurd trivial hnot
    | dead => exact absurd hpc hdead
    | writing =>
        obtain ⟨_, _, hcall⟩ := h.live.here hpc
        cases hcall
    | waitWrite | awaiting | backoff | checkpointing => trivial
  obtain ⟨rest, hlt, hinv⟩ := cancelTimer_drops h.inv h.live hflushing hnot
  exact ⟨rest, hlt, Or.inl rfl, startFlush_inv h.closer hinv⟩

/-- When the database accepts the statements once close() has begun, close()
commits every logged row and closes the writer exactly when the timer task,
at its cancellation, was neither dead nor holding rows before their COMMIT. -/
theorem close_commits_iff {conn runKnown : Bool} {before : List Action} {s₀ : State}
    {after : List CloseAction} {s : Closing}
    (hbefore : run (step batchSize) (start conn runKnown) before = some s₀)
    (hafter : run (closeStep batchSize) ⟨s₀, .notBegun⟩ (.close :: after) = some s)
    (hquiet : ∀ a ∈ after, Quiet a) (hend : s.phase = .finished ∨ s.phase = .raised) :
    (s.store.db.committed = loggedBy before ∧ s.store.conn = false) ↔ Safe (s₀.pcs .timer) := by
  have hserving : Serving (loggedBy before) s₀ := run_serving (start_serving conn runKnown) hbefore
  obtain ⟨s₁, hclose, hrun⟩ := run_cons_eq_some.mp hafter
  have halong : Along (closeStep batchSize) (fun _ a => Quiet a) s₁ after := along_of_forall hquiet
  rcases step_close hserving.inv hclose with ⟨hdead, rfl⟩ | ⟨hdead, rfl⟩
  · have hraised : Raised (loggedBy before) s :=
      along_invariant (fun _ _ _ => step_raised) ⟨rfl, hserving.live, hserving.dead hdead⟩ halong hrun
    rw [hdead]
    exact iff_of_false hraised.not_closed id
  · by_cases hsafe : Safe (s₀.pcs .timer)
    · have hkept : Kept (loggedBy before) s :=
        along_invariant (fun _ _ _ => step_kept) (kept_of_safe hserving hsafe) halong hrun
      have hphase : s.phase = .finished := by
        rcases hend with hp | hp
        · exact hp
        · rcases hkept.phase with hf | hf
          · rw [hp] at hf
            cases hf
          · exact hf.1
      exact iff_of_true (hkept.committed hphase) hsafe
    · obtain ⟨rest, hlt, hstart⟩ := dropped_of_not_safe hserving hdead hsafe
      have hdropped : Dropped rest s :=
        along_invariant (fun _ _ _ => step_dropped) hstart halong hrun
      exact iff_of_false (fun hall => hdropped.not_committed hlt hall.1) hsafe

def runThenClose (before : List Action) (after : List CloseAction) :
    Option (State × Closing) :=
  (run (step twoRows) (start true true) before).bind (fun s₀ =>
    (run (closeStep twoRows) ⟨s₀, .notBegun⟩ (.close :: after)).map (fun s => (s₀, s)))

theorem runThenClose_eq_some {before : List Action} {after : List CloseAction}
    {p : State × Closing} (h : runThenClose before after = some p) :
    run (step twoRows) (start true true) before = some p.1 ∧
      run (closeStep twoRows) ⟨p.1, .notBegun⟩ (.close :: after) = some p.2 := by
  obtain ⟨s₀, hbefore, hmap⟩ := Option.bind_eq_some_iff.mp h
  obtain ⟨s, hafter, rfl⟩ := Option.map_eq_some_iff.mp hmap
  exact ⟨hbefore, hafter⟩

def flushOf (task : Task) : List Action :=
  [.acquireFlush task, .acquireWrite task] ++ succeed task ++ succeed task ++ succeed task ++
    succeed task

def sleepingTimer : List Action := [.log 0 (passOf "a.example") false]

def closeFlush : List CloseAction := (flushOf .closer).map .store ++ [.closeWriter]

theorem sleepingTimer_closed : ∃ p, runThenClose sleepingTimer closeFlush = some p ∧
    p.2.store.db.committed = loggedBy sleepingTimer ∧ p.2.store.conn = false := by
  have hrun : (runThenClose sleepingTimer closeFlush).any
      (fun p => p.1.pcs .timer = .outside ∧ p.2.phase = .finished) = true := by decide +kernel
  obtain ⟨p, hp, hends⟩ := (Option.any_eq_true _ _).mp hrun
  obtain ⟨htimer, hphase⟩ := of_decide_eq_true hends
  obtain ⟨hbefore, hafter⟩ := runThenClose_eq_some hp
  have hquiet : ∀ a ∈ closeFlush, Quiet a := by simp [closeFlush, flushOf, succeed, Quiet]
  have hsafe : Safe (p.1.pcs .timer) := by rw [htimer]; trivial
  exact ⟨p, hp, (close_commits_iff hbefore hafter hquiet (Or.inl hphase)).mpr hsafe⟩

/-- The flush of the timer fails at BEGIN IMMEDIATE, and the timer with it. -/
def deadTimer : List Action :=
  [.log 0 (passOf "a.example") false, .wakeTimer, .acquireFlush .timer, .acquireWrite .timer,
    .execute .timer (.fails .other 0), .resume .timer]

theorem deadTimer_not_closed : ∃ p, runThenClose deadTimer [] = some p ∧ p.2.phase = .raised ∧
    p.2.store.db.committed ≠ loggedBy deadTimer ∧ p.2.store.conn = true := by
  have hrun : (runThenClose deadTimer []).any (fun p => p.2.phase = .raised ∧
      p.2.store.db.committed ≠ loggedBy deadTimer ∧ p.2.store.conn = true) = true := by decide +kernel
  obtain ⟨p, hp, hends⟩ := (Option.any_eq_true _ _).mp hrun
  exact ⟨p, hp, of_decide_eq_true hends⟩

/-- The timer is cancelled while its INSERT runs. -/
def insertingTimer : List Action :=
  [.log 0 (passOf "a.example") false, .wakeTimer, .acquireFlush .timer, .acquireWrite .timer] ++
    succeed .timer ++ succeed .timer

theorem insertingTimer_lost : ∃ p,
    runThenClose insertingTimer [.store (.acquireFlush .closer), .closeWriter] = some p ∧
      p.2.phase = .finished ∧ p.2.store.db.committed ++ p.2.store.pending = ∅ ∧
        loggedBy insertingTimer ≠ ∅ := by
  have hrun : (runThenClose insertingTimer [.store (.acquireFlush .closer), .closeWriter]).any
      (fun p => p.2.phase = .finished ∧ p.2.store.db.committed ++ p.2.store.pending = ∅ ∧
        loggedBy insertingTimer ≠ ∅) = true := by
    decide +kernel
  obtain ⟨p, hp, hends⟩ := (Option.any_eq_true _ _).mp hrun
  exact ⟨p, hp, of_decide_eq_true hends⟩

end Blockchecks.StoreCloseRuns
