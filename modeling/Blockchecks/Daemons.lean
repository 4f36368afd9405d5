import Blockchecks.OrderedDict
import Blockchecks.Runs
import Mathlib.Logic.Function.Basic

namespace Blockchecks.Daemons

open OrderedDict Runs

/-! Workers that look for the daemons of their namespace in /proc, and kill them by pid. -/

section processes

/-- A process as /proc shows it: whether its comm is nfqws2, and the inode of its network
namespace. The stamp says when it was started or last became another program. -/
structure Process where
  nfqws2 : Bool
  ns : Nat
  since : Nat

/-- A call of _find_nfqws2_pids: the pids that are left of the listing, and the ones it found, each
with the time at which its comm was read. -/
structure Scan where
  inode : Option Nat
  began : Nat
  todo : List Nat := []
  found : List (Nat × Nat) := []
  errors : Nat := 0

inductive Phase where
  | idle
  | scanning (scan : Scan)
  /-- The comm of pid was nfqws2; the link to its namespace comes next. -/
  | linking (pid named : Nat) (scan : Scan)
  | killing (inode : Option Nat) (todo : List (Nat × Nat))
  /-- _wait_nfqws2_gone has returned True. -/
  | drained (inode : Option Nat) (began : Nat)

structure Host (Worker : Type) where
  processes : Dict Nat Process := Dict.empty
  /-- The inodes of the files in /var/run/netns. -/
  netns : String → Option Nat
  clock : Nat := 0
  phase : Worker → Phase := fun _ => .idle

inductive Action (Worker : Type) where
  | enter (pid : Nat) (nfqws2 : Bool) (ns : Nat)
  | exit (pid : Nat)
  | list (w : Worker) (ns : String) (pids : List Nat)
  | listFails (w : Worker) (ns : String)
  | readComm (w : Worker) (denied : Bool)
  | readLink (w : Worker) (denied : Bool)
  | startKills (w : Worker)
  | kill (w : Worker)
  | checkGone (w : Worker)
  | finish (w : Worker)

variable {Worker : Type}

namespace Host

variable [DecidableEq Worker]

def goes (s : Host Worker) (w : Worker) (phase : Phase) : Host Worker :=
  { s with phase := Function.update s.phase w phase }

/-- The steps of _find_nfqws2_pids, _pkill_nfqws2_in_ns and _wait_nfqws2_gone, with those of the
processes between them. A namespace without a file is scanned as one without processes. A killed
process is there until it exits. -/
def step (s : Host Worker) : Action Worker → Option (Host Worker)
  | .enter pid nfqws2 ns =>
    some { s with processes := s.processes.set pid ⟨nfqws2, ns, s.clock⟩, clock := s.clock + 1 }
  | .exit pid => some { s with processes := s.processes.erase pid }
  | .list w ns pids => match s.phase w, s.netns ns with
    | .idle, none => some (s.goes w (.scanning { inode := none, began := s.clock }))
    | .idle, some inode =>
      if ∀ pid ∈ s.processes.keys, pid ∈ pids
      then some (s.goes w (.scanning { inode := some inode, began := s.clock, todo := pids }))
      else none
    | _, _ => none
  | .listFails w ns => match s.phase w, s.netns ns with
    | .idle, some inode => some (s.goes w (.scanning { inode := some inode, began := s.clock, errors := 1 }))
    | _, _ => none
  | .readComm w denied => match s.phase w with
    | .scanning scan => match scan.todo with
      | [] => none
      | pid :: rest =>
        let scan := { scan with todo := rest }
        match s.processes.get? pid with
        | none => some (s.goes w (.scanning scan))
        | some process =>
          if denied then some (s.goes w (.scanning { scan with errors := scan.errors + 1 }))
          else if process.nfqws2 then some (s.goes w (.linking pid s.clock scan))
          else some (s.goes w (.scanning scan))
    | _ => none
  | .readLink w denied => match s.phase w with
    | .linking pid named scan => match s.processes.get? pid with
      | none => some (s.goes w (.scanning scan))
      | some process =>
        if denied then some (s.goes w (.scanning { scan with errors := scan.errors + 1 }))
        else if some process.ns = scan.inode
        then some (s.goes w (.scanning { scan with found := scan.found ++ [(pid, named)] }))
        else some (s.goes w (.scanning scan))
    | _ => none
  | .startKills w => match s.phase w with
    | .scanning scan => if scan.todo = [] then some (s.goes w (.killing scan.inode scan.found)) else none
    | _ => none
  | .kill w => match s.phase w with
    | .killing inode (_ :: rest) => some (s.goes w (.killing inode rest))
    | _ => none
  | .checkGone w => match s.phase w with
    | .scanning scan =>
      if scan.todo = [] then some (s.goes w
        (if scan.found = [] ∧ scan.errors = 0 then .drained scan.inode scan.began else .idle))
      else none
    | _ => none
  | .finish w => match s.phase w with
    | .killing _ [] => some (s.goes w .idle)
    | .drained _ _ => some (s.goes w .idle)
    | _ => none

end Host

/-- The pids were read as nfqws2 in this namespace, and still are unless they changed hands. -/
def Held (s : Host Worker) (inode : Option Nat) (found : List (Nat × Nat)) : Prop :=
  ∀ e ∈ found, e.2 ≤ s.clock ∧
    ∀ p, s.processes.get? e.1 = some p → p.since < e.2 → p.nfqws2 = true ∧ some p.ns = inode

/-- A scan without errors misses no daemon that was there when it began. -/
def Seeks (s : Host Worker) (scan : Scan) (now : List Nat) : Prop :=
  scan.began ≤ s.clock ∧ (scan.errors = 0 →
    ∀ pid p, s.processes.get? pid = some p → p.nfqws2 = true → some p.ns = scan.inode →
      p.since < scan.began → pid ∈ scan.todo ∨ pid ∈ now ∨ pid ∈ scan.found.map Prod.fst)

def Named (s : Host Worker) (pid named : Nat) : Prop :=
  named ≤ s.clock ∧ ∀ p, s.processes.get? pid = some p → p.since < named → p.nfqws2 = true

/-- The daemons of the namespace are all younger than that. -/
def Clear (s : Host Worker) (inode : Option Nat) (began : Nat) : Prop :=
  began ≤ s.clock ∧
    ∀ pid p, s.processes.get? pid = some p → p.nfqws2 = true → some p.ns = inode → began ≤ p.since

/-- What a worker believes at each point is so. -/
def Faithful (s : Host Worker) : Phase → Prop
  | .idle => True
  | .scanning scan => Held s scan.inode scan.found ∧ Seeks s scan []
  | .linking pid named scan => Held s scan.inode scan.found ∧ Named s pid named ∧ Seeks s scan [pid]
  | .killing inode todo => Held s inode todo
  | .drained inode began => Clear s inode began

/-- Processes exited, and others took their pids or became other programs. -/
structure Later (s t : Host Worker) : Prop where
  phase : t.phase = s.phase
  clock : s.clock ≤ t.clock
  processes : ∀ pid p, t.processes.get? pid = some p → s.processes.get? pid = some p ∨ s.clock ≤ p.since

variable {s t : Host Worker} {inode : Option Nat} {found : List (Nat × Nat)} {scan : Scan}

theorem Held.later (hlater : Later s t) (h : Held s inode found) : Held t inode found := by
  intro e he
  obtain ⟨hclock, hheld⟩ := h e he
  refine ⟨Nat.le_trans hclock hlater.clock, fun p hp hsince => ?_⟩
  rcases hlater.processes e.1 p hp with hp | hnew
  · exact hheld p hp hsince
  · -- whoever took over the pid is younger than the reading of its name
    omega

theorem Faithful.later (hlater : Later s t) {phase : Phase} (h : Faithful s phase) : Faithful t phase := by
  have hseeks : ∀ {scan : Scan} {now : List Nat}, Seeks s scan now → Seeks t scan now := by
    intro scan now hs
    refine ⟨Nat.le_trans hs.1 hlater.clock, fun herrors pid p hp hname hns hsince => ?_⟩
    rcases hlater.processes pid p hp with hp | hnew
    · exact hs.2 herrors pid p hp hname hns hsince
    · have hbegan := hs.1
      omega
  cases phase with
  | idle => trivial
  | scanning scan => exact ⟨h.1.later hlater, hseeks h.2⟩
  | linking pid named scan =>
      obtain ⟨hheld, hnamed, hscan⟩ := h
      refine ⟨hheld.later hlater, ⟨Nat.le_trans hnamed.1 hlater.clock, ?_⟩, hseeks hscan⟩
      intro p hp hsince
      rcases hlater.processes pid p hp with hp | hnew
      · exact hnamed.2 p hp hsince
      · have hclock := hnamed.1
        omega
  | killing inode todo => exact Held.later hlater h
  | drained inode began =>
      refine ⟨Nat.le_trans h.1 hlater.clock, fun pid p hp hname hns => ?_⟩
      rcases hlater.processes pid p hp with hp | hnew
      · exact h.2 pid p hp hname hns
      · exact Nat.le_trans h.1 hnew

theorem Seeks.next {pid : Nat} {rest : List Nat} (h : Seeks s scan []) (htodo : scan.todo = pid :: rest) :
    Seeks s { scan with todo := rest } [pid] := by
  refine ⟨h.1, fun herrors pid' p hp hname hns hsince => ?_⟩
  rcases h.2 herrors pid' p hp hname hns hsince with hin | hnow | hfound
  · rw [htodo] at hin
    rcases List.mem_cons.mp hin with rfl | hin
    · exact Or.inr (Or.inl List.mem_cons_self)
    · exact Or.inl hin
  · cases hnow
  · exact Or.inr (Or.inr hfound)

/-- A pid may be passed over when no daemon of the namespace has it. -/
theorem Seeks.pass {pid : Nat} (h : Seeks s scan [pid])
    (hnone : ∀ p, s.processes.get? pid = some p → ¬(p.nfqws2 = true ∧ some p.ns = scan.inode)) :
    Seeks s scan [] := by
  refine ⟨h.1, fun herrors pid' p hp hname hns hsince => ?_⟩
  rcases h.2 herrors pid' p hp hname hns hsince with hin | hnow | hfound
  · exact Or.inl hin
  · obtain rfl := List.mem_singleton.mp hnow
    exact absurd ⟨hname, hns⟩ (hnone p hp)
  · exact Or.inr (Or.inr hfound)

theorem Seeks.fails {now : List Nat} (h : Seeks s scan now) :
    Seeks s { scan with errors := scan.errors + 1 } [] :=
  ⟨h.1, fun herrors => absurd herrors (Nat.succ_ne_zero _)⟩

theorem Seeks.finds {pid : Nat} (named : Nat) (h : Seeks s scan [pid]) :
    Seeks s { scan with found := scan.found ++ [(pid, named)] } [] := by
  refine ⟨h.1, fun herrors pid' p hp hname hns hsince => ?_⟩
  rw [List.map_append]
  rcases h.2 herrors pid' p hp hname hns hsince with hin | hnow | hfound
  · exact Or.inl hin
  · exact Or.inr (Or.inr (List.mem_append_right _ hnow))
  · exact Or.inr (Or.inr (List.mem_append_left _ hfound))

theorem later_enter (s : Host Worker) (pid : Nat) (nfqws2 : Bool) (ns : Nat) :
    Later s { s with processes := s.processes.set pid ⟨nfqws2, ns, s.clock⟩, clock := s.clock + 1 } where
  phase := rfl
  clock := Nat.le_succ _
  processes pid' p hp := by
    rw [Dict.get?_set] at hp
    split_ifs at hp
    · obtain rfl := Option.some.inj hp
      exact Or.inr (Nat.le_refl _)
    · exact Or.inl hp

theorem later_exit (s : Host Worker) (pid : Nat) : Later s { s with processes := s.processes.erase pid } where
  phase := rfl
  clock := Nat.le_refl _
  processes pid' p hp := by
    rw [Dict.get?_erase] at hp
    split_ifs at hp
    exact Or.inl hp

theorem faithful_start (netns : String → Option Nat) :
    ∀ w, Faithful ({ netns := netns } : Host Worker) (({ netns := netns } : Host Worker).phase w) :=
  fun _ => trivial

variable [DecidableEq Worker]

/-- A worker that takes a step has read the processes as they are. -/
theorem faithful_goes {w : Worker} {phase : Phase} (h : ∀ w, Faithful s (s.phase w))
    (hphase : Faithful s phase) :
    ∀ w', Faithful (s.goes w phase) ((s.goes w phase).phase w') := by
  intro w'
  have hsame : ∀ ph, Faithful s ph → Faithful (s.goes w phase) ph := by
    intro ph hph
    cases ph <;> exact hph
  by_cases hw : w' = w
  · subst hw
    have hnew : (s.goes w' phase).phase w' = phase := Function.update_self ..
    rw [hnew]
    exact hsame phase hphase
  · have hold : (s.goes w phase).phase w' = s.phase w' := Function.update_of_ne hw ..
    rw [hold]
    exact hsame _ (h w')

theorem faithful_readComm {w : Worker} {denied : Bool} (h : ∀ w, Faithful s (s.phase w))
    (hstep : s.step (.readComm w denied) = some t) : ∀ w, Faithful t (t.phase w) := by
  cases hphase : s.phase w with
  | scanning scan =>
      have hw := h w
      rw [hphase] at hw
      obtain ⟨hheld, hseeks⟩ := hw
      cases htodo : scan.todo with
      | nil => simp [Host.step, hphase, htodo] at hstep
      | cons pid rest =>
          have hnext := hseeks.next htodo
          simp only [Host.step, hphase, htodo] at hstep
          cases hprocess : s.processes.get? pid with
          | none =>
              simp only [hprocess] at hstep
              cases hstep
              exact faithful_goes h ⟨hheld, hnext.pass (by simp [hprocess])⟩
          | some process =>
              simp only [hprocess] at hstep
              split_ifs at hstep with hdenied hname <;> cases hstep
              · exact faithful_goes h ⟨hheld, hnext.fails⟩
              · have hnamed : Named s pid s.clock := by
                  refine ⟨Nat.le_refl _, fun p hp _ => ?_⟩
                  rw [hprocess] at hp
                  obtain rfl := Option.some.inj hp
                  exact hname
                exact faithful_goes h ⟨hheld, hnamed, hnext⟩
              · exact faithful_goes h ⟨hheld, hnext.pass (by simp [hprocess, hname])⟩
  | idle => simp [Host.step, hphase] at hstep
  | linking pid named scan => simp [Host.step, hphase] at hstep
  | killing inode todo => simp [Host.step, hphase] at hstep
  | drained inode began => simp [Host.step, hphase] at hstep

theorem faithful_readLink {w : Worker} {denied : Bool} (h : ∀ w, Faithful s (s.phase w))
    (hstep : s.step (.readLink w denied) = some t) : ∀ w, Faithful t (t.phase w) := by
  cases hphase : s.phase w with
  | linking pid named scan =>
      have hw := h w
      rw [hphase] at hw
      obtain ⟨hheld, hnamed, hseeks⟩ := hw
      simp only [Host.step, hphase] at hstep
      cases hprocess : s.processes.get? pid with
      | none =>
          simp only [hprocess] at hstep
          cases hstep
          exact faithful_goes h ⟨hheld, hseeks.pass (by simp [hprocess])⟩
      | some process =>
          simp only [hprocess] at hstep
          split_ifs at hstep with hdenied hns <;> cases hstep
          · exact faithful_goes h ⟨hheld, hseeks.fails⟩
          · refine faithful_goes h ⟨fun e he => ?_, hseeks.finds named⟩
            rcases List.mem_append.mp he with he | he
            · exact hheld e he
            · obtain rfl := List.mem_singleton.mp he
              refine ⟨hnamed.1, fun p hp hsince => ⟨hnamed.2 p hp hsince, ?_⟩⟩
              rw [hprocess] at hp
              obtain rfl := Option.some.inj hp
              exact hns
          · exact faithful_goes h ⟨hheld, hseeks.pass (by simp [hprocess, hns])⟩
  | idle => simp [Host.step, hphase] at hstep
  | scanning scan => simp [Host.step, hphase] at hstep
  | killing inode todo => simp [Host.step, hphase] at hstep
  | drained inode began => simp [Host.step, hphase] at hstep

theorem faithful_step {a : Action Worker} (h : ∀ w, Faithful s (s.phase w)) (hstep : s.step a = some t) :
    ∀ w, Faithful t (t.phase w) := by
  have hlater : ∀ {t : Host Worker}, Later s t → ∀ w, Faithful t (t.phase w) := by
    intro t hlater w
    rw [hlater.phase]
    exact (h w).later hlater
  cases a with
  | enter pid nfqws2 ns =>
      cases hstep
      exact hlater (later_enter s pid nfqws2 ns)
  | exit pid =>
      cases hstep
      exact hlater (later_exit s pid)
  | list w ns pids =>
      cases hphase : s.phase w <;> cases hns : s.netns ns <;> simp only [Host.step, hphase, hns] at hstep <;>
        try cases hstep
      · exact faithful_goes h ⟨by simp [Held], Nat.le_refl _, by simp⟩
      · split_ifs at hstep with hlisted
        cases hstep
        refine faithful_goes h ⟨by simp [Held], Nat.le_refl _, fun _ pid p hp _ _ _ => Or.inl ?_⟩
        apply hlisted
        exact (Dict.mem_keys_iff _ _).mpr ⟨p, hp⟩
  | listFails w ns =>
      cases hphase : s.phase w <;> cases hns : s.netns ns <;> simp only [Host.step, hphase, hns] at hstep <;>
        cases hstep
      exact faithful_goes h ⟨by simp [Held], Nat.le_refl _, by simp⟩
  | readComm w denied => exact faithful_readComm h hstep
  | readLink w denied => exact faithful_readLink h hstep
  | startKills w =>
      cases hphase : s.phase w <;> simp only [Host.step, hphase] at hstep <;> try cases hstep
      have hw := h w
      rw [hphase] at hw
      split_ifs at hstep
      cases hstep
      exact faithful_goes h hw.1
  | kill w =>
      cases hphase : s.phase w with
      | killing inode todo =>
          have hw := h w
          rw [hphase] at hw
          cases todo <;> simp only [Host.step, hphase] at hstep <;> cases hstep
          exact faithful_goes h fun e he => hw e (List.mem_cons_of_mem _ he)
      | _ => simp [Host.step, hphase] at hstep
  | checkGone w =>
      cases hphase : s.phase w <;> simp only [Host.step, hphase] at hstep <;> try cases hstep
      have hw := h w
      rw [hphase] at hw
      split_ifs at hstep with htodo hgone <;> cases hstep
      · obtain ⟨hfound, herrors⟩ := hgone
        refine faithful_goes h ⟨hw.2.1, fun pid p hp hname hns => ?_⟩
        -- a daemon from before the scan would be among its pids: none is left, and none was found
        by_contra hold
        have hsought := hw.2.2 herrors pid p hp hname hns (by omega)
        simp [htodo, hfound] at hsought
      · exact faithful_goes h trivial
  | finish w =>
      cases hphase : s.phase w with
      | killing inode todo =>
          cases todo <;> simp only [Host.step, hphase] at hstep <;> cases hstep
          exact faithful_goes h trivial
      | drained inode began =>
          simp only [Host.step, hphase] at hstep
          cases hstep
          exact faithful_goes h trivial
      | _ => simp [Host.step, hphase] at hstep

/-- A kill hits a daemon of the worker's namespace. Whatever else it hits took over the pid, or
became another program, after the worker had read its name. -/
theorem kills_own (netns : String → Option Nat) (as : List (Action Worker)) :
    Along Host.step (fun s a => ∀ w inode pid named rest, a = .kill w →
      s.phase w = .killing inode ((pid, named) :: rest) → ∀ p, s.processes.get? pid = some p →
        (p.nfqws2 = true ∧ some p.ns = inode) ∨ named ≤ p.since) { netns := netns } as := by
  refine Along.mono (P := fun s => ∀ w, Faithful s (s.phase w)) (C := fun _ _ => True)
    (fun s a t hs _ hstep => faithful_step hs hstep) ?_ (faithful_start netns) (along_true _ _)
  intro s a hs _ w inode pid named rest _ hphase p hp
  have hw := hs w
  rw [hphase] at hw
  have hheld := (hw (pid, named) List.mem_cons_self).2 p hp
  by_cases hsince : p.since < named
  · exact Or.inl (hheld hsince)
  · exact Or.inr (by omega)

/-- A daemon is killed and waited for, and the next one started. -/
def restart : List (Action Unit) :=
  [.enter 7 true 40, .enter 8 true 41, .list () "bc0" [1, 7, 8], .readComm () false, .readComm () false,
    .readLink () false, .readComm () false, .readLink () false, .startKills (), .kill (), .exit 7, .finish (),
    .list () "bc0" [8], .readComm () false, .readLink () false, .checkGone (), .enter 9 true 40]

end processes

end Blockchecks.Daemons
