import Blockchecks.WarmPool

namespace Blockchecks.WarmPoolRuns

open Runs WarmPool

variable {Task : Type} {s t : State Task}

/-- One runner has been started as soon as somebody has entered, and no other;
every probe went through it, and stop stops all that were started. -/
structure OneWarmPool (s : State Task) : Prop where
  launched : s.launched.length ≤ 1
  entered : ∀ task, s.pc task ≠ .idle → s.launched ≠ []
  used : ∀ runner ∈ s.used, s.launched = [runner]
  stopped : ∀ runner ∈ s.launched, runner ∈ s.stop.stopped

/-- start is entered only after one has returned, or as the first. -/
def Calm (s : State Task) : Action Task → Prop
  | .enter _ _ => s.started = true ∨ s.launched = []
  | _ => True

/-- Where a task is only once the service has been started, and with the runner
of the service if it has read it. -/
def Settled (s : State Task) : Pc → Prop
  | .idle | .awaitStart _ => True
  | .building => s.started = true
  | .waiting work | .probing work => s.started = true ∧ work.runner s = s.runner

structure Inv (s : State Task) : Prop where
  runner : s.runner = s.launched.head?
  started : s.started = true → s.launched ≠ []
  awaiting : ∀ task caller, s.pc task = .awaitStart caller → s.launched ≠ []
  settled : ∀ task, Settled s (s.pc task)
  used : ∀ runner ∈ s.used, s.started = true ∧ s.runner = some runner

theorem cold_inv : Inv (cold : State Task) := by
  refine ⟨rfl, ?_, ?_, fun _ => trivial, ?_⟩
  · intro h
    cases h
  · intro task caller h
    cases h
  · intro runner h
    cases h

theorem Settled.keep {pc : Pc} (h : Settled s pc) (hrunner : t.runner = s.runner)
    (hstarted : s.started = true → t.started = true) : Settled t pc := by
  cases pc with
  | idle | awaitStart => trivial
  | building => exact hstarted h
  | waiting work | probing work =>
      cases work with
      | probe => exact ⟨hstarted h.1, rfl⟩
      | findStrategy runner => exact ⟨hstarted h.1, h.2.trans hrunner.symm⟩

/-- Until the service has been started, nobody is past start. -/
theorem Settled.of_cold {pc : Pc} (h : Settled s pc) (hcold : s.started = false) : Settled t pc := by
  cases pc with
  | idle | awaitStart => trivial
  | building => cases hcold.symm.trans h
  | waiting work | probing work => cases hcold.symm.trans h.1

theorem settled_afterStart (caller : Caller) (h : s.started = true) : Settled s (afterStart caller) := by
  cases caller with
  | start => trivial
  | probe => exact ⟨h, rfl⟩
  | findStrategy => exact h

theorem Inv.holder (h : Inv s) (holder : Option Task) : Inv { s with holder := holder } :=
  ⟨h.runner, h.started, h.awaiting, fun task => (h.settled task).keep rfl id, h.used⟩

theorem Inv.launch (h : Inv s) (hcold : s.started = false) : Inv s.launch := by
  refine ⟨rfl, fun _ => List.cons_ne_nil _ _, fun _ _ _ => List.cons_ne_nil _ _,
    fun task => (h.settled task).of_cold hcold, ?_⟩
  intro runner hrunner
  cases hcold.symm.trans (h.used runner hrunner).1

theorem Inv.warm (h : Inv s) (hlaunched : s.launched ≠ []) : Inv { s with started := true } :=
  ⟨h.runner, fun _ => hlaunched, h.awaiting, fun task => (h.settled task).keep rfl (fun _ => rfl),
    fun runner hrunner => ⟨rfl, (h.used runner hrunner).2⟩⟩

theorem Inv.use (h : Inv s) {runner : Nat} (hstarted : s.started = true)
    (hrunner : s.runner = some runner) : Inv { s with used := runner :: s.used } := by
  refine ⟨h.runner, h.started, h.awaiting, fun task => (h.settled task).keep rfl id, ?_⟩
  intro other hother
  rcases List.mem_cons.mp hother with rfl | hold
  · exact ⟨hstarted, hrunner⟩
  · exact h.used other hold

variable [DecidableEq Task]

theorem Inv.goto (h : Inv s) (task : Task) {pc : Pc} (hpc : Settled s pc)
    (hawait : ∀ caller, pc = .awaitStart caller → s.launched ≠ []) : Inv (s.goto task pc) := by
  refine ⟨h.runner, h.started, ?_, ?_, h.used⟩
  · intro other caller hother
    rw [pc_goto, Function.update_apply] at hother
    split at hother
    · exact hawait caller hother
    · exact h.awaiting other caller hother
  · intro other
    rw [pc_goto, Function.update_apply]
    split
    · exact hpc.keep rfl id
    · exact (h.settled other).keep rfl id

theorem Inv.goto_afterStart (h : Inv s) (task : Task) (caller : Caller) (hs : s.started = true) :
    Inv (s.goto task (afterStart caller)) := by
  refine h.goto task (settled_afterStart caller hs) ?_
  intro other hother
  cases caller <;> cases hother

/-- What a step can do. -/
theorem step_cases {a : Action Task} (h : step s a = some t) :
    (∃ task caller, a = .enter task caller ∧ s.started = false ∧
      t = s.launch.goto task (.awaitStart caller)) ∨
    ((∀ task caller, a = .enter task caller → s.started = true) ∧ t.launched = s.launched ∧
      (Inv s → Inv t)) := by
  cases a with
  | enter task caller =>
      rw [step] at h
      split at h
      · cases h
      · split at h
        next hstarted =>
          cases h
          exact Or.inr ⟨fun _ _ _ => hstarted, rfl, fun hinv => hinv.goto_afterStart task caller hstarted⟩
        next hcold =>
          cases h
          exact Or.inl ⟨task, caller, rfl, by simpa using hcold, rfl⟩
  | startReturns task =>
      rw [step] at h
      split at h
      next caller hpc =>
        cases h
        refine Or.inr ⟨nofun, rfl, fun hinv => ?_⟩
        exact (hinv.warm (hinv.awaiting task caller hpc)).goto_afterStart task caller rfl
      next => cases h
  | build task =>
      rw [step] at h
      split at h
      next hpc =>
        cases h
        refine Or.inr ⟨nofun, rfl, fun hinv => hinv.goto task ?_ nofun⟩
        have hsettled := hinv.settled task
        rw [hpc] at hsettled
        exact ⟨hsettled, rfl⟩
      next => cases h
  | acquire task =>
      rw [step] at h
      split at h
      next work hpc hfree =>
        cases h
        refine Or.inr ⟨nofun, rfl, fun hinv => (hinv.holder (some task)).goto task ?_ nofun⟩
        have hsettled := hinv.settled task
        rw [hpc] at hsettled
        exact hsettled.keep rfl id
      next => cases h
  | test task =>
      rw [step] at h
      split at h
      next work hpc =>
        obtain ⟨runner, hrunner, rfl⟩ := Option.map_eq_some_iff.mp h
        refine Or.inr ⟨nofun, rfl, fun hinv => ?_⟩
        have hsettled := hinv.settled task
        rw [hpc] at hsettled
        exact hinv.use hsettled.1 (hsettled.2.symm.trans hrunner)
      next => cases h
  | leave task =>
      rw [step] at h
      split at h
      next => cases h
      next =>
        cases h
        exact Or.inr ⟨nofun, rfl, fun hinv => (hinv.holder _).goto task trivial nofun⟩

theorem step_inv {a : Action Task} (hinv : Inv s) (h : step s a = some t) : Inv t := by
  rcases step_cases h with ⟨task, caller, _, hcold, rfl⟩ | ⟨_, _, hkeep⟩
  · exact (hinv.launch hcold).goto task trivial (fun _ _ => List.cons_ne_nil _ _)
  · exact hkeep hinv

omit [DecidableEq Task] in
theorem Inv.entered (h : Inv s) {task : Task} (hpc : s.pc task ≠ .idle) : s.launched ≠ [] := by
  have hsettled := h.settled task
  cases hat : s.pc task with
  | idle => exact absurd hat hpc
  | awaitStart caller => exact h.awaiting task caller hat
  | building =>
      rw [hat] at hsettled
      exact h.started hsettled
  | waiting work | probing work =>
      rw [hat] at hsettled
      exact h.started hsettled.1

omit [DecidableEq Task] in
/-- Whatever overlaps, the probes share one runner, so the count decides. -/
theorem Inv.oneWarmPool_iff (h : Inv s) : OneWarmPool s ↔ s.launched.length ≤ 1 := by
  constructor
  · exact fun hpool => hpool.launched
  · intro hlength
    have hlaunched : ∀ runner, s.runner = some runner → s.launched = [runner] := by
      intro runner hrunner
      rw [h.runner] at hrunner
      obtain ⟨rest, hrest⟩ := List.head?_eq_some_iff.mp hrunner
      rw [hrest, List.length_cons] at hlength
      have hnil : rest = [] := List.eq_nil_of_length_eq_zero (by omega)
      rw [hrest, hnil]
    refine ⟨hlength, fun _ hpc => h.entered hpc,
      fun runner hrunner => hlaunched runner (h.used runner hrunner).2, ?_⟩
    intro runner hrunner
    have hhead : s.runner = some runner := by
      rw [h.runner]
      match hl : s.launched with
      | [] =>
          rw [hl] at hrunner
          cases hrunner
      | first :: rest =>
          have hone := hlaunched first (by rw [h.runner, hl]; rfl)
          rw [hone] at hrunner
          rw [List.mem_singleton.mp hrunner]
          rfl
    simp [State.stop, hhead]

theorem step_oneWarmPool {a : Action Task} (hinv : Inv s) (hpool : OneWarmPool s)
    (h : step s a = some t) : OneWarmPool t ↔ Calm s a := by
  rw [(step_inv hinv h).oneWarmPool_iff]
  rcases step_cases h with ⟨task, caller, rfl, hcold, rfl⟩ | ⟨hwarm, hsame, _⟩
  · change s.launched.length + 1 ≤ 1 ↔ s.started = true ∨ s.launched = []
    simp [hcold]
  · rw [hsame]
    refine iff_of_true hpool.launched ?_
    cases a with
    | enter task caller => exact Or.inl (hwarm task caller rfl)
    | _ => trivial

/-- From a cold service and without a stop: in every state of the run there is
one warm pool exactly when no start is entered before the first has returned. -/
theorem one_warm_pool_iff {actions : List (Action Task)} (hrun : run step cold actions = some s) :
    Along step (fun s _ => OneWarmPool s) cold actions ∧ OneWarmPool s ↔
      Along step Calm cold actions := by
  refine along_and_final_iff (fun _ _ _ => step_inv) (fun _ _ _ => step_oneWarmPool) cold_inv ?_ hrun
  refine cold_inv.oneWarmPool_iff.mpr ?_
  exact Nat.zero_le 1

instance decidableCalm (s : State Task) : (a : Action Task) → Decidable (Calm s a)
  | .enter _ _ => inferInstanceAs (Decidable (_ ∨ _))
  | .startReturns _ | .build _ | .acquire _ | .test _ | .leave _ => isTrue trivial

/-- A probe warms the pool, and find_strategy comes when it is warm. -/
def oneByOne : List (Action Bool) :=
  [.enter false .probe, .startReturns false, .acquire false, .test false,
    .enter true .findStrategy, .build true, .test false, .leave false, .acquire true, .test true]

theorem oneByOne_pool : ∃ s, run step cold oneByOne = some s ∧ s.used = [0, 0, 0] ∧
    Along step (fun s _ => OneWarmPool s) cold oneByOne ∧ OneWarmPool s := by
  have hend : (run step cold oneByOne).any (fun s => decide (s.used = [0, 0, 0])) = true := by
    decide +kernel
  have hcalm : Along step Calm cold oneByOne := by decide +kernel
  obtain ⟨s, hrun, hused⟩ := (Option.any_eq_true _ _).mp hend
  obtain ⟨halong, hlast⟩ := (one_warm_pool_iff hrun).mpr hcalm
  exact ⟨s, hrun, of_decide_eq_true hused, halong, hlast⟩

/-- Two probes come while the service is cold. -/
def together : List (Action Bool) :=
  [.enter false .probe, .enter true .probe, .startReturns false, .startReturns true,
    .acquire false, .test false, .leave false, .acquire true, .test true, .leave true]

theorem together_two_pools : ∃ s, run step cold together = some s ∧ s.launched = [1, 0] ∧
    s.stop.stopped = [1] ∧ ¬ OneWarmPool s := by
  have hend : (run step cold together).any
      (fun s => decide (s.launched = [1, 0] ∧ s.stop.stopped = [1])) = true := by
    decide +kernel
  obtain ⟨s, hrun, hs⟩ := (Option.any_eq_true _ _).mp hend
  obtain ⟨hlaunched, hstopped⟩ := of_decide_eq_true hs
  refine ⟨s, hrun, hlaunched, hstopped, fun hpool => ?_⟩
  have hlength := hpool.launched
  rw [hlaunched] at hlength
  exact absurd hlength (by decide)

end Blockchecks.WarmPoolRuns
