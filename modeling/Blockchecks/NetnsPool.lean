import Blockchecks.Runs
import Mathlib.Data.List.Perm.Subperm
import Mathlib.Logic.Function.Basic

namespace Blockchecks.NetnsPool

open Runs

/-- Which call destroys: the rollback of create_all, which holds the lock of its
pool, or destroy_all. -/
inductive Destroyer (Pool : Type) where
  | rollback (pool : Pool)
  | destroyAll (pool : Pool)
  deriving DecidableEq

def Destroyer.pool {Pool : Type} : Destroyer Pool → Pool
  | .rollback pool => pool
  | .destroyAll pool => pool

/-- Where a thread is: outside, about to create a namespace, at the lock with a
namespace that it has created, at the sysctl under the lock, about to destroy
the rest of its list, between the two locked sections of track_ns_destroyed, or at
the sysctl behind them. -/
inductive Pc (Pool : Type) where
  | idle
  | creating (pool : Pool) (i : Nat)
  | tracking (pool : Pool) (i : Nat)
  | enabling (pool : Pool) (i : Nat)
  | destroying (call : Destroyer Pool) (names : List Nat)
  | checking (call : Destroyer Pool) (names : List Nat)
  | restoring (call : Destroyer Pool) (value : String) (names : List Nat)
  deriving DecidableEq

/-- A pool; its namespaces go by their number. -/
structure PoolState (Thread : Type) where
  size : Nat
  created : Bool := false
  names : List Nat := []
  lock : Option Thread := none

/-- The variables of the module, the value of ip_forward, and the namespaces that
have been tracked as created and not as destroyed. -/
structure State (Pool Thread : Type) where
  pools : Pool → PoolState Thread
  pc : Thread → Pc Pool := fun _ => .idle
  activeNsCount : Nat := 0
  ipForwardRestore : Option String := none
  ipForwardLock : Option Thread := none
  ipForward : String
  live : List (Pool × Nat) := []

variable {Pool Thread : Type} [DecidableEq Pool] [DecidableEq Thread]

def State.goto (s : State Pool Thread) (t : Thread) (pc : Pc Pool) : State Pool Thread :=
  { s with pc := Function.update s.pc t pc }

def State.update (s : State Pool Thread) (pool : Pool) (f : PoolState Thread → PoolState Thread) :
    State Pool Thread :=
  { s with pools := Function.update s.pools pool (f (s.pools pool)) }

/-- A call or one step of a thread. The flags say whether a namespace could be
created, and whether the value of ip_forward could be read. -/
inductive Action (Pool Thread : Type) where
  | createAll (t : Thread) (pool : Pool)
  | destroyAll (t : Thread) (pool : Pool)
  | createOne (t : Thread) (ok : Bool)
  | trackNsCreated (t : Thread) (readable : Bool)
  | proceed (t : Thread)

def State.created (s : State Pool Thread) (t : Thread) (pool : Pool) (i : Nat) : State Pool Thread :=
  { s with activeNsCount := s.activeNsCount + 1, live := s.live ++ [(pool, i)] }.goto t (.creating pool (i + 1))

/-- The section of track_ns_destroyed that counts. -/
def State.destroyed (s : State Pool Thread) (pool : Pool) (i : Nat) : State Pool Thread :=
  { s with activeNsCount := s.activeNsCount - 1, live := s.live.erase (pool, i) }

/-- A rollback counts only the namespaces that the pool lists. -/
def counts (s : State Pool Thread) (call : Destroyer Pool) (i : Nat) : Bool :=
  match call with
  | .rollback pool => decide (i ∈ (s.pools pool).names)
  | .destroyAll _ => true

def createOne (s : State Pool Thread) (t : Thread) (ok : Bool) : Option (State Pool Thread) :=
  match s.pc t with
  | .creating pool i =>
      if i = (s.pools pool).size then
        some ((s.update pool (fun p => { p with created := true, lock := none })).goto t .idle)
      else if ok then
        some ((s.update pool (fun p => { p with names := p.names ++ [i] })).goto t (.tracking pool i))
      else some (s.goto t (.destroying (.rollback pool) (List.range (i + 1))))
  | _ => none

def trackNsCreated (s : State Pool Thread) (t : Thread) (readable : Bool) : Option (State Pool Thread) :=
  match s.pc t, s.ipForwardLock with
  | .tracking pool i, none =>
      if s.activeNsCount = 0 ∧ readable = true ∧ s.ipForward ≠ "1" then
        some ({ s with ipForwardLock := some t, ipForwardRestore := some (s.ipForwardRestore.getD s.ipForward) }.goto t
          (.enabling pool i))
      else some (s.created t pool i)
  | _, _ => none

def proceed (s : State Pool Thread) (t : Thread) : Option (State Pool Thread) :=
  match s.pc t with
  | .enabling pool i => some ({ s with ipForward := "1", ipForwardLock := none }.created t pool i)
  | .destroying (.rollback pool) [] =>
      some ((s.update pool (fun p => { p with names := [], lock := none })).goto t .idle)
  | .destroying (.destroyAll pool) [] =>
      if (s.pools pool).lock = none then some ((s.update pool (fun p => { p with names := [] })).goto t .idle)
      else none
  | .destroying call (i :: names) =>
      if counts s call i = false then some (s.goto t (.destroying call names))
      else if s.ipForwardLock = none then some ((s.destroyed call.pool i).goto t (.checking call names))
      else none
  | .checking call names =>
      if s.ipForwardLock ≠ none then none
      else if s.activeNsCount > 0 then some (s.goto t (.destroying call names))
      else match s.ipForwardRestore with
        | none => some (s.goto t (.destroying call names))
        | some value => some ({ s with ipForwardRestore := none }.goto t (.restoring call value names))
  | .restoring call value names => some ({ s with ipForward := value }.goto t (.destroying call names))
  | _ => none

def step (s : State Pool Thread) : Action Pool Thread → Option (State Pool Thread)
  | .createAll t pool =>
      if s.pc t ≠ .idle ∨ (s.pools pool).lock ≠ none then none
      else if (s.pools pool).created then some s
      else some ((s.update pool (fun p => { p with lock := some t })).goto t (.creating pool 0))
  | .destroyAll t pool =>
      if s.pc t ≠ .idle ∨ (s.pools pool).lock ≠ none then none
      else if (s.pools pool).created = false ∧ (s.pools pool).names = [] then some s
      else some ((s.update pool (fun p => { p with created := false })).goto t
        (.destroying (.destroyAll pool) (s.pools pool).names))
  | .createOne t ok => createOne s t ok
  | .trackNsCreated t readable => trackNsCreated s t readable
  | .proceed t => proceed s t

/-- Before any namespace is created. -/
def start (size : Pool → Nat) (ipForward : String) : State Pool Thread :=
  { pools := fun pool => { size := size pool }, ipForward := ipForward }

/-! The queue of a pool: its namespaces while tasks hold them. -/

namespace Leases

/-- Where the holder of a namespace is: outside its threads, or in the await of a probe's
thread, or of the thread of cleanup_ns. -/
inductive Phase where
  | holding
  | probing
  | cleaning
  deriving DecidableEq

/-- A holder has come through the semaphore, or without it. -/
structure Lease (Task Ns : Type) where
  task : Task
  ns : Ns
  admitted : Bool
  phase : Phase
  deriving DecidableEq

/-- A pool, the semaphore of its runner, the tasks that the semaphore has let in and that
hold nothing yet, and the namespaces of the threads whose task has been cancelled. -/
structure State (Task Ns : Type) where
  size : Nat
  queue : List Ns
  permits : Nat
  waiting : List Task := []
  leases : List (Lease Task Ns) := []
  detached : List Ns := []
  drained : Bool := false

inductive Action (Task Ns : Type) where
  | enter (t : Task)
  | acquire (t : Task)
  | take (t : Task)
  | toThread (t : Task)
  | resume (t : Task)
  | release (t : Task)
  | put (t : Task)
  | cancel (t : Task)
  | threadEnds (ns : Ns)
  | drain

variable {Task Ns : Type} [DecidableEq Task] [DecidableEq Ns]

/-- The pool once seed has put its namespaces on the queue. -/
def start (names : List Ns) : State Task Ns := { size := names.length, queue := names, permits := names.length }

namespace State

variable (s : State Task Ns)

def leaseOf (t : Task) : Option (Lease Task Ns) := s.leases.find? (fun lease => lease.task = t)

/-- A task does one thing at a time. -/
def Idle (t : Task) : Prop := t ∉ s.waiting ∧ s.leaseOf t = none

instance (t : Task) : Decidable (s.Idle t) := inferInstanceAs (Decidable (_ ∧ _))

def goto (lease : Lease Task Ns) (phase : Phase) : State Task Ns :=
  { s with leases := { lease with phase := phase } :: s.leases.erase lease }

/-- The put of release, and the exit of the semaphore behind it. It waits while the queue is full. -/
def putBack (lease : Lease Task Ns) : Option (State Task Ns) :=
  if 0 < s.size ∧ s.size ≤ s.queue.length then none
  else some { s with
    queue := s.queue ++ [lease.ns]
    leases := s.leases.erase lease
    permits := if lease.admitted then s.permits + 1 else s.permits }

def detach (lease : Lease Task Ns) : State Task Ns := { s with detached := lease.ns :: s.detached }

/-- CancelledError at the await of a task. Its thread goes on, and the finally of its caller
or of release does what is left. -/
def cancel (t : Task) : Option (State Task Ns) :=
  if t ∈ s.waiting then some { s with waiting := s.waiting.erase t, permits := s.permits + 1 }
  else (s.leaseOf t).bind (fun lease => match lease.phase with
    | .holding => some (s.goto lease .cleaning)
    | .probing => some ((s.detach lease).goto lease .cleaning)
    | .cleaning => (s.detach lease).putBack lease)

end State

/-- The first namespace of the queue goes to a task. -/
def grant (s : State Task Ns) (t : Task) (admitted : Bool) : Option (State Task Ns) :=
  match s.queue with
  | [] => none
  | ns :: queue => some { s with queue := queue, leases := ⟨t, ns, admitted, .holding⟩ :: s.leases }

def move (s : State Task Ns) (t : Task) (before after : Phase) : Option (State Task Ns) :=
  (s.leaseOf t).bind (fun lease => if lease.phase = before then some (s.goto lease after) else none)

def step (s : State Task Ns) : Action Task Ns → Option (State Task Ns)
  | .enter t =>
      if s.Idle t ∧ 0 < s.permits then some { s with waiting := t :: s.waiting, permits := s.permits - 1 }
      else none
  | .acquire t => if t ∈ s.waiting then grant { s with waiting := s.waiting.erase t } t true else none
  | .take t => if s.Idle t then grant s t false else none
  | .toThread t => move s t .holding .probing
  | .resume t => move s t .probing .holding
  | .release t => move s t .holding .cleaning
  | .put t => (s.leaseOf t).bind (fun lease => if lease.phase = .cleaning then s.putBack lease else none)
  | .cancel t => s.cancel t
  | .threadEnds ns => if ns ∈ s.detached then some { s with detached := s.detached.erase ns } else none
  | .drain => some { s with queue := [], drained := true }

def held (s : State Task Ns) : List Ns := s.leases.map Lease.ns

/-- How many threads are at work in a namespace. -/
def threads (s : State Task Ns) (ns : Ns) : Nat :=
  s.leases.countP (fun lease => lease.ns = ns ∧ lease.phase ≠ .holding) + s.detached.count ns

def Exclusive (s : State Task Ns) : Prop := ∀ ns, threads s ns ≤ 1

/-- The step starts a thread in a namespace where one is at work that its task has left. -/
def startsBeside (s : State Task Ns) : Action Task Ns → Bool
  | .toThread t | .release t => (s.leaseOf t).any (fun lease => decide (lease.ns ∈ s.detached))
  | .cancel t => decide (t ∉ s.waiting) && (s.leaseOf t).any (fun lease => match lease.phase with
      | .holding => decide (lease.ns ∈ s.detached)
      | .probing => true
      | .cleaning => false)
  | _ => false

/-- The namespaces of the pool are on its queue or held, none of them twice, and each permit is
free, or with a task that waits for its namespace, or with a holder. -/
structure Sound (names : List Ns) (s : State Task Ns) : Prop where
  size : s.size = names.length
  subperm : (s.queue ++ held s).Subperm names
  perm : s.drained = false → (s.queue ++ held s).Perm names
  permits : s.permits + s.waiting.length + s.leases.countP Lease.admitted = names.length

variable {names : List Ns} {s u : State Task Ns} {t : Task} {lease : Lease Task Ns} {a : Action Task Ns}

omit [DecidableEq Ns] in
theorem leaseOf_spec (h : s.leaseOf t = some lease) : lease ∈ s.leases ∧ lease.task = t :=
  ⟨List.mem_of_find?_eq_some h,
    of_decide_eq_true (List.find?_some (p := fun l : Lease Task Ns => decide (l.task = t)) h)⟩

theorem leases_perm (h : s.leaseOf t = some lease) : s.leases.Perm (lease :: s.leases.erase lease) :=
  List.perm_cons_erase (leaseOf_spec h).1

theorem held_perm (h : s.leaseOf t = some lease) : (held s).Perm (lease.ns :: (s.leases.erase lease).map Lease.ns) :=
  (leases_perm h).map Lease.ns

omit [DecidableEq Task] [DecidableEq Ns] in
theorem Sound.of_perm (h : Sound names s) (hsize : u.size = s.size) (hdrained : u.drained = s.drained)
    (hheld : (u.queue ++ held u).Perm (s.queue ++ held s))
    (hpermits : u.permits + u.waiting.length + u.leases.countP Lease.admitted =
      s.permits + s.waiting.length + s.leases.countP Lease.admitted) : Sound names u where
  size := hsize.trans h.size
  subperm := hheld.subperm.trans h.subperm
  perm := fun hd => hheld.trans (h.perm (hdrained ▸ hd))
  permits := hpermits.trans h.permits

omit [DecidableEq Task] [DecidableEq Ns] in
theorem sound_start (names : List Ns) : Sound names (start names : State Task Ns) := by
  have hqueue : (start names : State Task Ns).queue ++ held (start names : State Task Ns) = names :=
    List.append_nil names
  exact ⟨rfl, hqueue.symm ▸ List.Subperm.refl names, fun _ => .of_eq hqueue, rfl⟩

theorem Sound.goto (h : Sound names s) (hlease : s.leaseOf t = some lease) (phase : Phase) :
    Sound names (s.goto lease phase) := by
  refine h.of_perm rfl rfl ((held_perm hlease).symm.append_left s.queue) ?_
  rw [(leases_perm hlease).countP_eq]
  rfl

theorem Sound.putBack (h : Sound names s) (hlease : s.leaseOf t = some lease) (hu : s.putBack lease = some u) :
    Sound names u := by
  rw [State.putBack] at hu
  split at hu
  next => cases hu
  next =>
    obtain rfl := Option.some.inj hu
    refine h.of_perm rfl rfl ?_ ?_
    · change (s.queue ++ [lease.ns] ++ _).Perm _
      rw [List.append_assoc, List.singleton_append]
      exact (held_perm hlease).symm.append_left s.queue
    · rw [(leases_perm hlease).countP_eq, List.countP_cons]
      dsimp only
      split <;> omega

omit [DecidableEq Task] [DecidableEq Ns] in
theorem Sound.detach (h : Sound names s) (lease : Lease Task Ns) : Sound names (s.detach lease) :=
  h.of_perm rfl rfl .rfl rfl

omit [DecidableEq Task] [DecidableEq Ns] in
theorem Sound.grant {admitted : Bool} {waiting : List Task} (h : Sound names s)
    (hwaiting : waiting.length + (if admitted then 1 else 0) = s.waiting.length)
    (hu : grant { s with waiting := waiting } t admitted = some u) : Sound names u := by
  rw [Leases.grant] at hu
  split at hu
  next => cases hu
  next ns queue hqueue =>
    obtain rfl := Option.some.inj hu
    refine h.of_perm rfl rfl ?_ ?_
    · change (queue ++ ns :: held s).Perm (s.queue ++ held s)
      rw [show s.queue = ns :: queue from hqueue]
      exact List.perm_middle
    · rw [← hwaiting, List.countP_cons]
      dsimp only
      omega

theorem Sound.move {before after : Phase} (h : Sound names s) (hu : move s t before after = some u) : Sound names u := by
  obtain ⟨lease, hlease, hmove⟩ := Option.bind_eq_some_iff.mp hu
  split at hmove
  next =>
    obtain rfl := Option.some.inj hmove
    exact h.goto hlease after
  next => cases hmove

omit [DecidableEq Ns] in
theorem length_erase_waiting (h : t ∈ s.waiting) : (s.waiting.erase t).length + 1 = s.waiting.length := by
  have hpos := List.length_pos_of_mem h
  rw [List.length_erase_of_mem h]
  omega

theorem Sound.cancel (h : Sound names s) (hu : s.cancel t = some u) : Sound names u := by
  rw [State.cancel] at hu
  split at hu
  next hwaiting =>
    obtain rfl := Option.some.inj hu
    have hlength := length_erase_waiting hwaiting
    refine h.of_perm rfl rfl .rfl ?_
    dsimp only
    omega
  next =>
    obtain ⟨lease, hlease, hphase⟩ := Option.bind_eq_some_iff.mp hu
    split at hphase
    · obtain rfl := Option.some.inj hphase
      exact h.goto hlease .cleaning
    · obtain rfl := Option.some.inj hphase
      exact (h.detach lease).goto hlease .cleaning
    · exact (h.detach lease).putBack hlease hphase

theorem Sound.step (h : Sound names s) (hu : step s a = some u) : Sound names u := by
  cases a with
  | enter t =>
      rw [Leases.step] at hu
      split at hu
      next hpermit =>
        obtain rfl := Option.some.inj hu
        have hpos := hpermit.2
        refine h.of_perm rfl rfl .rfl ?_
        rw [List.length_cons]
        dsimp only
        omega
      next => cases hu
  | acquire t =>
      rw [Leases.step] at hu
      split at hu
      next hwaiting => exact h.grant (length_erase_waiting hwaiting) hu
      next => cases hu
  | take t =>
      rw [Leases.step] at hu
      split at hu
      next => exact h.grant rfl hu
      next => cases hu
  | toThread t | resume t | release t => exact h.move hu
  | put t =>
      obtain ⟨lease, hlease, hput⟩ := Option.bind_eq_some_iff.mp hu
      split at hput
      next => exact h.putBack hlease hput
      next => cases hput
  | cancel t => exact h.cancel hu
  | threadEnds ns =>
      rw [Leases.step] at hu
      split at hu
      next =>
        obtain rfl := Option.some.inj hu
        exact h.of_perm rfl rfl .rfl rfl
      next => cases hu
  | drain =>
      obtain rfl := Option.some.inj hu
      exact ⟨h.size, (List.sublist_append_right s.queue (held s)).subperm.trans h.subperm,
        fun hd => (by cases hd), h.permits⟩

theorem sound_run {as : List (Action Task Ns)} (h : run step (start names) as = some s) : Sound names s :=
  run_invariant (fun _ _ _ hs hu => hs.step hu) (sound_start names) h

theorem putBack_isSome (h : Sound names s) (hlease : s.leaseOf t = some lease) : (s.putBack lease).isSome := by
  have hlength := h.subperm.length_le
  have hpos : 0 < s.leases.length := List.length_pos_of_mem (leaseOf_spec hlease).1
  rw [List.length_append, held, List.length_map, ← h.size] at hlength
  rw [State.putBack, if_neg (by omega)]
  rfl

theorem acquire_isSome (h : Sound names s) (hdrained : s.drained = false)
    (hadmitted : ∀ lease ∈ s.leases, lease.admitted) (ht : t ∈ s.waiting) : (step s (.acquire t)).isSome := by
  have hlength := (h.perm hdrained).length_eq
  have hpermits := h.permits
  have hpos := List.length_pos_of_mem ht
  rw [List.length_append, held, List.length_map] at hlength
  rw [List.countP_eq_length.mpr hadmitted] at hpermits
  rw [Leases.step, if_pos ht, grant]
  cases hqueue : s.queue with
  | nil =>
      rw [hqueue, List.length_nil] at hlength
      omega
  | cons ns queue => rfl

/-- The release of the first task is cancelled, and the second gets the namespace while the
first is still being cleaned up. -/
def cancelledRelease : List (Action Nat String) :=
  [.enter 0, .acquire 0, .toThread 0, .resume 0, .release 0, .cancel 0, .enter 1, .acquire 1, .toThread 1]

theorem threads_eq (h : s.leaseOf t = some lease) (ns : Ns) :
    threads s ns = (s.leases.erase lease).countP (fun l => l.ns = ns ∧ l.phase ≠ .holding) +
      (if lease.ns = ns ∧ lease.phase ≠ .holding then 1 else 0) + s.detached.count ns := by
  rw [threads, (leases_perm h).countP_eq, List.countP_cons]
  simp only [decide_eq_true_eq]

theorem threads_goto (lease : Lease Task Ns) (phase : Phase) (ns : Ns) :
    threads (s.goto lease phase) ns = (s.leases.erase lease).countP (fun l => l.ns = ns ∧ l.phase ≠ .holding) +
      (if lease.ns = ns ∧ phase ≠ .holding then 1 else 0) + s.detached.count ns := by
  rw [threads, State.goto, List.countP_cons]
  simp only [decide_eq_true_eq]

/-- No other holder has a thread in the namespace of a holder. -/
theorem threads_rest (hnodup : (held s).Nodup) (h : s.leaseOf t = some lease) :
    (s.leases.erase lease).countP (fun l => l.ns = lease.ns ∧ l.phase ≠ .holding) = 0 := by
  have hfresh := (List.nodup_cons.mp ((held_perm h).nodup_iff.mp hnodup)).1
  refine List.countP_eq_zero.mpr fun other hother hsame => hfresh ?_
  have heq := (of_decide_eq_true hsame).1
  exact heq ▸ List.mem_map_of_mem hother

omit [DecidableEq Task] in
theorem Exclusive.mono (h : Exclusive s) (hle : ∀ ns, threads u ns ≤ threads s ns) : Exclusive u :=
  fun ns => Nat.le_trans (hle ns) (h ns)

/-- A holder that starts a thread. -/
theorem exclusive_goto {phase : Phase} (hnodup : (held s).Nodup) (hlease : s.leaseOf t = some lease)
    (hafter : phase ≠ .holding) (h : Exclusive s) :
    Exclusive (s.goto lease phase) ↔ lease.ns ∉ s.detached := by
  have hrest := threads_rest hnodup hlease
  constructor
  · intro hu hmem
    have hcount := List.count_pos_iff.mpr hmem
    have hthreads := hu lease.ns
    rw [threads_goto, hrest, if_pos ⟨rfl, hafter⟩] at hthreads
    omega
  · intro hfree ns
    by_cases hns : lease.ns = ns
    · subst hns
      have hone : threads (s.goto lease phase) lease.ns = 0 + 1 := by
        rw [threads_goto, hrest, if_pos ⟨rfl, hafter⟩, List.count_eq_zero.mpr hfree]
      exact Nat.le_of_eq hone
    · have hthreads := h ns
      rw [threads_eq hlease, if_neg (fun hboth => hns hboth.1)] at hthreads
      rwa [threads_goto, if_neg (fun hboth => hns hboth.1)]

theorem threads_resume (hlease : s.leaseOf t = some lease) (ns : Ns) :
    threads (s.goto lease .holding) ns ≤ threads s ns := by
  rw [threads_goto, threads_eq hlease, if_neg (fun hboth => hboth.2 rfl)]
  omega

theorem threads_putBack (hlease : s.leaseOf t = some lease) (hu : s.putBack lease = some u) (ns : Ns) :
    threads u ns ≤ threads s ns := by
  rw [State.putBack] at hu
  split at hu
  next => cases hu
  next =>
    obtain rfl := Option.some.inj hu
    rw [threads_eq hlease]
    exact Nat.add_le_add_right (Nat.le_add_right ..) _

/-- The thread of a release goes on in the namespace that goes back to the queue. -/
theorem threads_putBack_detach (hlease : s.leaseOf t = some lease) (hphase : lease.phase = .cleaning)
    (hu : (s.detach lease).putBack lease = some u) (ns : Ns) : threads u ns ≤ threads s ns := by
  rw [State.putBack] at hu
  split at hu
  next => cases hu
  next =>
    obtain rfl := Option.some.inj hu
    rw [threads_eq hlease]
    change (s.leases.erase lease).countP _ + (lease.ns :: s.detached).count ns ≤ _
    have hactive : lease.phase ≠ .holding := by
      rw [hphase]
      decide
    rw [List.count_cons]
    by_cases hns : lease.ns = ns
    · rw [if_pos (beq_iff_eq.mpr hns), if_pos ⟨hns, hactive⟩]
      omega
    · rw [if_neg (fun heq => hns (beq_iff_eq.mp heq)), if_neg (fun hboth => hns hboth.1)]
      omega

omit [DecidableEq Task] in
theorem threads_grant {admitted : Bool} {waiting : List Task}
    (hu : grant { s with waiting := waiting } t admitted = some u) (ns : Ns) : threads u ns = threads s ns := by
  rw [grant] at hu
  split at hu
  next => cases hu
  next =>
    obtain rfl := Option.some.inj hu
    rw [threads, threads, List.countP_cons_of_neg (fun htrue => (of_decide_eq_true htrue).2 rfl)]

theorem exclusive_move {after : Phase} (hnodup : (held s).Nodup) (hafter : after ≠ .holding) (h : Exclusive s)
    (hu : move s t .holding after = some u) :
    Exclusive u ↔ (s.leaseOf t).any (fun lease => decide (lease.ns ∈ s.detached)) = false := by
  obtain ⟨lease, hlease, hmove⟩ := Option.bind_eq_some_iff.mp hu
  split at hmove
  next =>
    obtain rfl := Option.some.inj hmove
    rw [hlease, Option.any_some, decide_eq_false_iff_not]
    exact exclusive_goto hnodup hlease hafter h
  next => cases hmove

/-- The second thread of a cancelled probe is at work beside the first. -/
theorem not_exclusive_detach (lease : Lease Task Ns) :
    ¬ Exclusive ((s.detach lease).goto lease .cleaning) := by
  intro hu
  have hthreads := hu lease.ns
  have hactive : Phase.cleaning ≠ .holding := by decide
  rw [threads_goto, if_pos ⟨rfl, hactive⟩] at hthreads
  change _ + 1 + (lease.ns :: s.detached).count lease.ns ≤ 1 at hthreads
  rw [List.count_cons_self] at hthreads
  omega

theorem exclusive_cancel (hnodup : (held s).Nodup) (h : Exclusive s) (hu : s.cancel t = some u) :
    Exclusive u ↔ startsBeside s (.cancel t : Action Task Ns) = false := by
  rw [State.cancel] at hu
  split at hu
  next hwaiting =>
    obtain rfl := Option.some.inj hu
    rw [startsBeside, decide_eq_false (not_not.mpr hwaiting), Bool.false_and]
    exact ⟨fun _ => rfl, fun _ => h⟩
  next hwaiting =>
    obtain ⟨lease, hlease, hphase⟩ := Option.bind_eq_some_iff.mp hu
    rw [startsBeside, decide_eq_true hwaiting, Bool.true_and, hlease, Option.any_some]
    split at hphase
    next =>
      obtain rfl := Option.some.inj hphase
      have hafter : Phase.cleaning ≠ .holding := by decide
      rw [exclusive_goto hnodup hlease hafter h]
      exact decide_eq_false_iff_not.symm
    next =>
      obtain rfl := Option.some.inj hphase
      exact ⟨fun hexclusive => absurd hexclusive (not_exclusive_detach lease), fun hfalse => (by cases hfalse)⟩
    next hcleaning =>
      exact ⟨fun _ => rfl, fun _ => h.mono (threads_putBack_detach hlease hcleaning hphase)⟩

theorem exclusive_step (hnodup : (held s).Nodup) (h : Exclusive s) (hu : step s a = some u) :
    Exclusive u ↔ startsBeside s a = false := by
  have hfine (hle : ∀ ns, threads u ns ≤ threads s ns) : Exclusive u ↔ false = false :=
    ⟨fun _ => rfl, fun _ => h.mono hle⟩
  have hholding : Phase.probing ≠ .holding ∧ Phase.cleaning ≠ .holding := by decide
  cases a with
  | enter t =>
      rw [step] at hu
      split at hu
      next =>
        obtain rfl := Option.some.inj hu
        exact hfine fun _ => Nat.le_refl _
      next => cases hu
  | acquire t =>
      rw [step] at hu
      split at hu
      next => exact hfine fun ns => Nat.le_of_eq (threads_grant hu ns)
      next => cases hu
  | take t =>
      rw [step] at hu
      split at hu
      next => exact hfine fun ns => Nat.le_of_eq (threads_grant hu ns)
      next => cases hu
  | toThread t => exact exclusive_move hnodup hholding.1 h hu
  | release t => exact exclusive_move hnodup hholding.2 h hu
  | resume t =>
      obtain ⟨lease, hlease, hmove⟩ := Option.bind_eq_some_iff.mp hu
      split at hmove
      next =>
        obtain rfl := Option.some.inj hmove
        exact hfine (threads_resume hlease)
      next => cases hmove
  | put t =>
      obtain ⟨lease, hlease, hput⟩ := Option.bind_eq_some_iff.mp hu
      split at hput
      next => exact hfine (threads_putBack hlease hput)
      next => cases hput
  | cancel t => exact exclusive_cancel hnodup h hu
  | threadEnds ns =>
      rw [step] at hu
      split at hu
      next =>
        obtain rfl := Option.some.inj hu
        exact hfine fun other => Nat.add_le_add_left (List.Sublist.count_le other List.erase_sublist) _
      next => cases hu
  | drain =>
      obtain rfl := Option.some.inj hu
      exact hfine fun _ => Nat.le_refl _

/-- In a run two threads are never at work in one namespace if and only if no step starts one
where a thread is that its cancelled task has left. A cancel during a probe always does. -/
theorem exclusive_iff {as : List (Action Task Ns)} (hnames : names.Nodup) (h : run step (start names) as = some s) :
    Along step (fun s _ => Exclusive s) (start names) as ∧ Exclusive s ↔
      Along step (fun s a => startsBeside s a = false) (start names) as := by
  have hstart : Exclusive (start names : State Task Ns) := fun _ => Nat.zero_le 1
  refine along_and_final_iff (P := fun s : State Task Ns => Sound names s) (fun _ _ _ hs hu => hs.step hu) ?_ (sound_start names) hstart h
  intro s a u hs hexclusive hu
  obtain ⟨part, hpart, hsublist⟩ := hs.subperm
  have hnodup := hpart.nodup_iff.mp (hnames.sublist hsublist)
  exact exclusive_step (List.nodup_append.mp hnodup).2.1 hexclusive hu

theorem cancelledRelease_shared : ∃ s, run step (start ["bs-p-0"]) cancelledRelease = some s ∧
    ¬ (Along step (fun s _ => Exclusive s) (start ["bs-p-0"]) cancelledRelease ∧ Exclusive s) := by
  obtain ⟨s, hs⟩ : ∃ s, run step (start ["bs-p-0"]) cancelledRelease = some s := ⟨_, rfl⟩
  have hbeside : ¬ Along step (fun s a => startsBeside s a = false) (start ["bs-p-0"]) cancelledRelease := by decide
  exact ⟨s, hs, fun hboth => hbeside ((exclusive_iff (List.nodup_cons.mpr ⟨List.not_mem_nil, List.nodup_nil⟩) hs).mp hboth)⟩

end Leases

end Blockchecks.NetnsPool
