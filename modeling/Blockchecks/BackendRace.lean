import Blockchecks.Runs
import Blockchecks.ProbeLogger

namespace Blockchecks.BackendRace

open Runs StrategyText Results BatchService RunStore ProbeLogger

inductive Oneshot where
  | testTcp
  | testTcpDomains
  deriving DecidableEq

/-- What a task is doing with the shared runner between two awaits. -/
inductive Task where
  | idle
  | finalizing (rest : List LogRow)
  | probing (call : Oneshot) (item : StrategyItem) (rest : List String)

structure Stored where
  ofBatch : Bool
  row : LogRow
  entry : TcpEntry

/-- The one result logger of a runner, its tasks and the rows it has written. -/
structure State where
  backend : Backend
  tasks : Nat → Task
  stored : List Stored

inductive Action where
  | startBatch (task : Nat) (rows : List LogRow)
  | logNext (task : Nat)
  | endBatch (task : Nat)
  | startOneshot (task : Nat) (call : Oneshot) (item : StrategyItem) (domains : List String)
  | logOneshot (task : Nat) (result : TcpTestResult) (dns : DnsMeta)
  | endOneshot (task : Nat)

def State.setTask (s : State) (task : Nat) (t : Task) : State :=
  { s with tasks := Function.update s.tasks task t }

def State.setProbeBackend (s : State) (backend : Backend) : State := { s with backend := backend }

def State.logTcp (s : State) (ofBatch : Bool) (row : LogRow) (backend : Backend) : State :=
  { s with stored := s.stored ++
      [⟨ofBatch, row, logTcpCampaign row.item row.domain row.result backend row.dns⟩] }

/-- A one-shot call sets the backend before its first await and resets it when
it is left. Its own rows are logged as one-shot rows by test_tcp, under the
current backend by test_tcp_domains. -/
def step (s : State) : Action → Option State
  | .startBatch task rows => match s.tasks task with
    | .idle => some (s.setTask task (.finalizing rows))
    | _ => none
  | .logNext task => match s.tasks task with
    | .finalizing (row :: rest) =>
        some ((s.logTcp true row s.backend).setTask task (.finalizing rest))
    | _ => none
  | .endBatch task => match s.tasks task with
    | .finalizing _ => some (s.setTask task .idle)
    | _ => none
  | .startOneshot task call item domains => match s.tasks task with
    | .idle => some ((s.setProbeBackend .oneshot).setTask task (.probing call item domains))
    | _ => none
  | .logOneshot task result dns => match s.tasks task with
    | .probing call item (domain :: rest) =>
        let backend := match call with
          | .testTcp => .oneshot
          | .testTcpDomains => s.backend
        some ((s.logTcp false ⟨item, domain, result, dns⟩ backend).setTask task
          (.probing call item rest))
    | _ => none
  | .endOneshot task => match s.tasks task with
    | .probing _ _ _ => some ((s.setProbeBackend .luaBridge).setTask task .idle)
    | _ => none

def start : State := ⟨.luaBridge, fun _ => .idle, []⟩

def Attributed (s : State) : Prop :=
  ∀ stored ∈ s.stored, stored.ofBatch = true →
    stored.entry.columns.status = campaignHarvestStatus stored.row.result .luaBridge

/-- An applied pass of a batch is logged only while the backend is the bridge. -/
def UnderBridge (s : State) : Action → Prop
  | .logNext task => match s.tasks task with
    | .finalizing (row :: _) => AppliedPass row.result → s.backend = .luaBridge
    | _ => True
  | _ => True

def Quiet (s : State) : Prop := ∀ task call item rest, s.tasks task ≠ .probing call item rest

theorem attributed_logTcp_iff {s : State} {ofBatch : Bool} {row : LogRow} {backend : Backend}
    (h : Attributed s) : Attributed (s.logTcp ofBatch row backend) ↔
      (ofBatch = true → AppliedPass row.result → backend = .luaBridge) := by
  rw [← campaignHarvestStatus_eq_lua_iff]
  constructor
  · intro hlog hb
    exact hlog _ (List.mem_append_right _ (List.mem_singleton.mpr rfl)) hb
  · intro hrow stored hmem hb
    rcases List.mem_append.mp hmem with hold | hnew
    · exact h stored hold hb
    · obtain rfl := List.mem_singleton.mp hnew
      exact hrow hb

theorem attributed_setTask {s : State} {task : Nat} {t : Task} :
    Attributed (s.setTask task t) ↔ Attributed s := Iff.rfl

/-- All that one action can do, with what its task was doing before. -/
inductive Moves (s : State) : Action → State → Prop
  | startBatch {task : Nat} (rows : List LogRow) (h : s.tasks task = .idle) :
      Moves s (.startBatch task rows) (s.setTask task (.finalizing rows))
  | logNext {task : Nat} {row : LogRow} {rest : List LogRow}
      (h : s.tasks task = .finalizing (row :: rest)) :
      Moves s (.logNext task) ((s.logTcp true row s.backend).setTask task (.finalizing rest))
  | endBatch {task : Nat} {rest : List LogRow} (h : s.tasks task = .finalizing rest) :
      Moves s (.endBatch task) (s.setTask task .idle)
  | startOneshot {task : Nat} (call : Oneshot) (item : StrategyItem) (domains : List String)
      (h : s.tasks task = .idle) :
      Moves s (.startOneshot task call item domains)
        ((s.setProbeBackend .oneshot).setTask task (.probing call item domains))
  | logOneshot {task : Nat} {call : Oneshot} {item : StrategyItem} {domain : String}
      {rest : List String} (result : TcpTestResult) (dns : DnsMeta) (backend : Backend)
      (h : s.tasks task = .probing call item (domain :: rest)) :
      Moves s (.logOneshot task result dns)
        ((s.logTcp false ⟨item, domain, result, dns⟩ backend).setTask task (.probing call item rest))
  | endOneshot {task : Nat} {call : Oneshot} {item : StrategyItem} {rest : List String}
      (h : s.tasks task = .probing call item rest) :
      Moves s (.endOneshot task) ((s.setProbeBackend .luaBridge).setTask task .idle)

theorem moves_of_step {s t : State} {a : Action} (h : step s a = some t) : Moves s a t := by
  cases a <;> simp only [step] at h <;> split at h <;> cases h
  all_goals rename_i htask
  · exact .startBatch _ htask
  · exact .logNext htask
  · exact .endBatch htask
  · exact .startOneshot _ _ _ htask
  · exact .logOneshot _ _ _ htask
  · exact .endOneshot htask

theorem step_attributed_iff {s t : State} {a : Action} (h : Attributed s) (hstep : step s a = some t) :
    Attributed t ↔ UnderBridge s a := by
  cases moves_of_step hstep with
  | startBatch rows _ => exact iff_of_true h trivial
  | logNext htask =>
      rw [attributed_setTask, attributed_logTcp_iff h]
      simp [UnderBridge, htask]
  | endBatch _ => exact iff_of_true h trivial
  | startOneshot call item domains _ => exact iff_of_true h trivial
  | logOneshot result dns backend _ =>
      rw [attributed_setTask, attributed_logTcp_iff h]
      simp [UnderBridge]
  | endOneshot _ => exact iff_of_true h trivial

/-- The backend differs from the bridge only during a one-shot call. -/
def Restored (s : State) : Prop := Quiet s → s.backend = .luaBridge

theorem step_restored {s t : State} {a : Action} (h : Restored s) (hstep : step s a = some t) :
    Restored t := by
  intro hquiet
  have keeps {task : Nat} {new : Task} (hold : ∀ call item rest, s.tasks task ≠ .probing call item rest)
      (ht : t.tasks = Function.update s.tasks task new) : Quiet s := by
    intro other call item rest hs
    by_cases hne : other = task
    · exact hold call item rest (hne ▸ hs)
    · exact hquiet other call item rest (by rw [ht, Function.update_of_ne hne, hs])
  cases moves_of_step hstep with
  | startBatch rows htask => exact h (keeps (by simp [htask]) rfl)
  | logNext htask => exact h (keeps (by simp [htask]) rfl)
  | endBatch htask => exact h (keeps (by simp [htask]) rfl)
  | startOneshot call item domains _ =>
      exact absurd (Function.update_self ..) (hquiet _ call item domains)
  | logOneshot result dns backend _ => exact absurd (Function.update_self ..) (hquiet _ _ _ _)
  | endOneshot _ => rfl

theorem start_attributed : Attributed start := by
  intro stored hmem
  exact absurd hmem List.not_mem_nil

/-- Over every interleaving, the rows of the batches keep the status of the
bridge exactly when no applied pass is logged while a one-shot call has taken
the backend away. -/
theorem batch_rows_attributed_iff {actions : List Action} {s : State}
    (h : run step start actions = some s) :
    Along step (fun s _ => Attributed s) start actions ∧ Attributed s ↔
      Along step UnderBridge start actions :=
  along_and_final_iff (P := fun _ => True) (fun _ _ _ _ _ => trivial)
    (fun _ _ _ _ hq hstep => step_attributed_iff hq hstep) trivial start_attributed h

def bridgePass : LogRow :=
  ⟨splitItem, "b.example",
    { item := splitItem, domain := "b.example", success := true, httpCode := 200,
      bridgeApplied := some true, bridgeBatchId := 1, bridgeGen := 1 }, {}⟩

def oneshotThenBatch : List Action :=
  [.startOneshot 0 .testTcp fakeItem ["a.example"],
    .logOneshot 0 { item := fakeItem, domain := "a.example", success := true, httpCode := 200 } {},
    .endOneshot 0, .startBatch 1 [bridgePass], .logNext 1]

theorem oneshotThenBatch_attributed : ∃ s, run step start oneshotThenBatch = some s ∧
    Along step UnderBridge start oneshotThenBatch ∧ Attributed s := by
  have hrun : run step start oneshotThenBatch =
      some ((run step start oneshotThenBatch).getD start) := rfl
  have hunder : Along step UnderBridge start oneshotThenBatch := by
    simp [Along, oneshotThenBatch, UnderBridge, step, start, State.setTask, State.setProbeBackend,
      State.logTcp]
  exact ⟨_, hrun, hunder, ((batch_rows_attributed_iff hrun).mpr hunder).2⟩

theorem oneshot_demotes_applied_pass : ∃ s,
    run step start [.startOneshot 0 .testTcp fakeItem ["a.example"],
      .startBatch 1 [bridgePass], .logNext 1] = some s ∧ ¬ Attributed s := by
  refine ⟨_, rfl, ?_⟩
  intro h
  have hrow := h _ (List.mem_singleton.mpr rfl) rfl
  exact absurd hrow (by decide)

theorem quiet_batches_attributed {actions : List Action} {s : State}
    (h : run step start actions = some s)
    (hquiet : Along step (fun s a => ∀ task, a = .logNext task → Quiet s) start actions) :
    Attributed s := by
  have hunder : Along step UnderBridge start actions := by
    apply along_of_run (P := Restored) (fun _ _ _ hr _ => step_restored hr) _ (fun _ => rfl) hquiet h
    intro s a t _ hs hq hstep _ _
    cases moves_of_step hstep with
    | logNext htask => simp [UnderBridge, htask, hs (hq _ rfl)]
    | _ => trivial
  exact along_invariant (fun _ _ _ ha hu hstep => (step_attributed_iff ha hstep).mpr hu)
    start_attributed hunder h

end Blockchecks.BackendRace
