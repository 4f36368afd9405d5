import Blockchecks.Locks
import Blockchecks.ProbeLogger
import Blockchecks.Runs
import Mathlib.Data.PNat.Defs

namespace Blockchecks.StoreFlush

open Runs Locks RunStore ProbeLogger

structure UdpEntry where
  strategy : String
  configPath : String
  target : String
  status : Status
  latencyMs : ℚ
  error : String
  deriving DecidableEq

/-- Rows of the two result tables, each in the order of logging. -/
structure Rows where
  tcp : List TcpEntry := []
  udp : List UdpEntry := []
  deriving DecidableEq

namespace Rows

instance : EmptyCollection Rows := ⟨{}⟩

instance : Append Rows := ⟨fun a b => ⟨a.tcp ++ b.tcp, a.udp ++ b.udp⟩⟩

def take (n : Nat) (a : Rows) : Rows := ⟨a.tcp.take n, a.udp.take n⟩

def length (a : Rows) : Nat := a.tcp.length + a.udp.length

@[simp] theorem append_empty (a : Rows) : a ++ (∅ : Rows) = a := by
  cases a
  exact congrArg₂ Rows.mk (List.append_nil _) (List.append_nil _)

@[simp] theorem empty_append (a : Rows) : (∅ : Rows) ++ a = a := rfl

theorem append_assoc (a b c : Rows) : a ++ b ++ c = a ++ (b ++ c) :=
  congrArg₂ Rows.mk (List.append_assoc ..) (List.append_assoc ..)

@[simp] theorem length_append (a b : Rows) : (a ++ b).length = a.length + b.length := by
  change (a.tcp ++ b.tcp).length + (a.udp ++ b.udp).length = _
  simp only [List.length_append, length]
  omega

@[simp] theorem length_empty : (∅ : Rows).length = 0 := rfl

theorem length_eq_zero_iff {a : Rows} : a.length = 0 ↔ a = ∅ := by
  cases a with
  | mk tcp udp =>
      rw [length, Nat.add_eq_zero_iff, List.length_eq_zero_iff, List.length_eq_zero_iff]
      exact (Rows.mk.injEq tcp udp [] []).to_iff.symm

@[simp] theorem take_empty (n : Nat) : (∅ : Rows).take n = ∅ :=
  congrArg₂ Rows.mk List.take_nil List.take_nil

end Rows

/-- The arguments of one log_tcp or log_udp call. -/
inductive LogCall where
  | tcp (strategy proto configPath : String) (columns : TcpColumns)
  | udp (strategy target : String) (status : Status) (latencyMs : ℚ) (error configPath : String)

def LogCall.rows : LogCall → Rows
  | .tcp strategy proto configPath columns =>
      { tcp := [⟨strategy, proto, orElse configPath strategy, columns⟩] }
  | .udp strategy target status latencyMs error configPath =>
      { udp := [⟨strategy, orElse configPath strategy, target, status, latencyMs, error⟩] }

def LogCall.buffered (pending : Rows) : LogCall → Nat
  | .tcp .. => pending.tcp.length
  | .udp .. => pending.udp.length

inductive Stmt where
  | ensureStrategy (name proto configPath : String)
  | insertTcp (rows : List TcpEntry)
  | insertUdp (rows : List UdpEntry)
  deriving DecidableEq

def Stmt.rows : Stmt → Rows
  | .ensureStrategy .. => ∅
  | .insertTcp rows => { tcp := rows }
  | .insertUdp rows => { udp := rows }

def rowsOf : List Stmt → Rows
  | [] => ∅
  | op :: rest => op.rows ++ rowsOf rest

/-- The upserts of _ensure_strategy_cached over a list of name, protocol and path. -/
def ensureStrategies (cache : List (String × String)) :
    List (String × String × String) → List Stmt
  | [] => []
  | (name, proto, configPath) :: rest =>
      if cache.contains (name, proto) then ensureStrategies cache rest
      else .ensureStrategy name proto configPath :: ensureStrategies ((name, proto) :: cache) rest

/-- The statements between BEGIN IMMEDIATE and COMMIT. -/
def statements (batch : Rows) : List Stmt :=
  ensureStrategies [] (batch.tcp.map (fun e => (e.strategy, e.proto, e.configPath))) ++
    (if batch.tcp = [] then [] else [.insertTcp batch.tcp]) ++
    (ensureStrategies (batch.tcp.map (fun e => (e.strategy, e.proto)))
      (batch.udp.map (fun e => (e.strategy, "udp", e.configPath))) ++
    (if batch.udp = [] then [] else [.insertUdp batch.udp]))

theorem rowsOf_append (a b : List Stmt) : rowsOf (a ++ b) = rowsOf a ++ rowsOf b := by
  induction a with
  | nil => rfl
  | cons op a ih => rw [List.cons_append, rowsOf, rowsOf, ih, Rows.append_assoc]

theorem rowsOf_ensureStrategies (cache : List (String × String))
    (keys : List (String × String × String)) : rowsOf (ensureStrategies cache keys) = ∅ := by
  induction keys generalizing cache with
  | nil => rfl
  | cons key keys ih =>
      obtain ⟨name, proto, configPath⟩ := key
      rw [ensureStrategies]
      split
      · exact ih cache
      · rw [rowsOf, Stmt.rows, Rows.empty_append, ih]

/-- Whatever the cache saves, the statements insert the whole batch. -/
theorem rowsOf_statements (batch : Rows) : rowsOf (statements batch) = batch := by
  have htcp : rowsOf (if batch.tcp = [] then [] else [.insertTcp batch.tcp]) = { tcp := batch.tcp } := by
    split
    next h => rw [h, rowsOf]; rfl
    · exact Rows.append_empty _
  have hudp : rowsOf (if batch.udp = [] then [] else [.insertUdp batch.udp]) = { udp := batch.udp } := by
    split
    next h => rw [h, rowsOf]; rfl
    · exact Rows.append_empty _
  rw [statements, rowsOf_append, rowsOf_append, rowsOf_append, rowsOf_ensureStrategies,
    rowsOf_ensureStrategies, htcp, hudp]
  exact congrArg₂ Rows.mk (List.append_nil _) (List.nil_append _)

inductive Failure where
  | locked
  | other
  deriving DecidableEq

/-- How a statement ends. A failing INSERT may have begun its transaction, a
failing executemany may have written some of its rows. -/
inductive Outcome where
  | ok
  | fails (failure : Failure) (progress : Nat)
  deriving DecidableEq

/-- What a flush waits for while it holds the write lock. -/
inductive Stage where
  | connect
  | insertRun
  | commitRun
  | beginImmediate
  | body (op : Stmt) (rest : List Stmt)
  | commit
  | rollback (failure : Failure)
  deriving DecidableEq

def bodyStage : List Stmt → Stage
  | [] => .commit
  | op :: rest => .body op rest

/-- The result tables as a reader sees them, and inside the writer's transaction. -/
structure Database where
  committed : Rows
  transaction : Option Rows

namespace Database

def uncommitted (db : Database) : Rows := db.transaction.getD ∅

def write (db : Database) (rows : Rows) : Database :=
  { db with transaction := some (db.uncommitted ++ rows) }

def commit (db : Database) : Database := ⟨db.committed ++ db.uncommitted, none⟩

def rollback (db : Database) : Database := { db with transaction := none }

/-- Run one statement. COMMIT and ROLLBACK are atomic and ROLLBACK succeeds. -/
def execute (db : Database) (outcome : Outcome) : Stage → Database × Outcome
  | .connect => (db, outcome)
  | .insertRun => match outcome with
      | .ok => (db.write ∅, outcome)
      | .fails _ progress => (if progress = 0 then db else db.write ∅, outcome)
  | .commitRun => match outcome with
      | .ok => (db.commit, outcome)
      | .fails _ _ => (db, outcome)
  | .beginImmediate => match outcome with
      | .ok => match db.transaction with
          | none => ({ db with transaction := some ∅ }, .ok)
          | some _ => (db, .fails .other 0)
      | .fails _ _ => (db, outcome)
  | .body op _ => match outcome with
      | .ok => (db.write op.rows, outcome)
      | .fails _ progress => (db.write (op.rows.take progress), outcome)
  | .commit => match outcome with
      | .ok => (db.commit, outcome)
      | .fails _ _ => (db, outcome)
  | .rollback _ => (db.rollback, .ok)

end Database

/-- The timer of the store, its close(), and its other callers. -/
inductive Task where
  | timer
  | closer
  | call (n : Nat)
  deriving DecidableEq

/-- Where a task is. The timer dies of an exception of its flush. -/
inductive Pc where
  | absent
  | outside
  | dead
  | waitFlush
  | waitWrite (batch : Rows) (attempt : Nat)
  | awaiting (stage : Stage) (batch : Rows) (attempt : Nat) (result : Option Outcome)
  | backoff (batch : Rows) (attempt : Nat)
  | checkpointing
  | writing
  deriving DecidableEq

structure State where
  db : Database
  pending : Rows
  flushLock : Option Task
  writeLock : Option Task
  conn : Bool
  runKnown : Bool
  pcs : Task → Pc

namespace State

def setPc (s : State) (task : Task) (pc : Pc) : State :=
  { s with pcs := Function.update s.pcs task pc }

/-- The next await after the writer connection is there. -/
def afterConnect (s : State) : Stage := if s.runKnown then .beginImmediate else .insertRun

def opening (s : State) : Stage := if s.conn then s.afterConnect else .connect

def drain (s : State) (task : Task) : State :=
  { s with pending := ∅, flushLock := some task }.setPc task (.waitWrite s.pending 0)

def acquireWrite (s : State) (task : Task) (batch : Rows) (attempt : Nat) : State :=
  { s with writeLock := some task }.setPc task (.awaiting s.opening batch attempt none)

def execute (s : State) (task : Task) (stage : Stage) (batch : Rows) (attempt : Nat)
    (outcome : Outcome) : State :=
  { s with db := (s.db.execute outcome stage).1 }.setPc task
    (.awaiting stage batch attempt (some (s.db.execute outcome stage).2))

def retry (s : State) (task : Task) (batch : Rows) (attempt : Nat) : State :=
  { s with writeLock := none }.setPc task (.backoff batch attempt)

/-- Put the batch back in front of the rows logged since, and raise. -/
def requeue (s : State) (task : Task) (batch : Rows) : State :=
  { s with pending := batch ++ s.pending, flushLock := none, writeLock := none }.setPc task
    (if task = Task.timer then .dead else .outside)

/-- An exception leaves the write lock; a locked database is tried five times. -/
def fail (s : State) (task : Task) (batch : Rows) (attempt : Nat) (failure : Failure) : State :=
  if failure = .locked ∧ attempt < 4 then s.retry task batch attempt else s.requeue task batch

/-- After its COMMIT a flush may checkpoint the log; the flush of close() does not. -/
def flushed (s : State) (task : Task) : State :=
  if task = .closer then
    { s with flushLock := none, writeLock := none }.setPc task .outside
  else { s with writeLock := none }.setPc task .checkpointing

def release (s : State) (task : Task) : State :=
  { s with flushLock := none }.setPc task .outside

/-- The task goes on with the result of its statement. -/
def resume (s : State) (task : Task) (stage : Stage) (batch : Rows) (attempt : Nat)
    (result : Outcome) : State :=
  match result with
  | .ok => match stage with
      | .connect =>
          { s with conn := true }.setPc task (.awaiting s.afterConnect batch attempt none)
      | .insertRun => s.setPc task (.awaiting .commitRun batch attempt none)
      | .commitRun =>
          { s with runKnown := true }.setPc task (.awaiting .beginImmediate batch attempt none)
      | .beginImmediate =>
          s.setPc task (.awaiting (bodyStage (statements batch)) batch attempt none)
      | .body _ rest => s.setPc task (.awaiting (bodyStage rest) batch attempt none)
      | .commit => s.flushed task
      | .rollback failure => s.fail task batch attempt failure
  | .fails failure _ => match stage with
      | .body _ _ => s.setPc task (.awaiting (.rollback failure) batch attempt none)
      | .commit => s.setPc task (.awaiting (.rollback failure) batch attempt none)
      | _ => s.fail task batch attempt failure

/-- The timer is created with the first row. -/
def ensureTimer (s : State) : State :=
  match s.pcs .timer with
  | .absent => s.setPc .timer .outside
  | _ => s

def append (s : State) (call : LogCall) : State :=
  { s with pending := s.pending ++ call.rows }.ensureTimer

/-- Another call of the store takes the writer connection. -/
def lockWrite (s : State) (n : Nat) : State :=
  { s with writeLock := some (.call n), conn := true }.setPc (.call n) .writing

def unlockWrite (s : State) (n : Nat) (commits : Bool) : State :=
  { s with writeLock := none, db := if commits then s.db.commit else s.db }.setPc (.call n) .outside

end State

/-- One synchronous stretch of a task, or one statement of the writer's thread. -/
inductive Action where
  | log (n : Nat) (call : LogCall) (aged : Bool)
  | flush (n : Nat)
  | wakeTimer
  | acquireFlush (task : Task)
  | acquireWrite (task : Task)
  | execute (task : Task) (outcome : Outcome)
  | resume (task : Task)
  | wake (task : Task)
  | endCheckpoint (task : Task)
  | lockWrite (n : Nat)
  | unlockWrite (n : Nat) (commits : Bool)

def step (batchSize : ℕ+) (s : State) : Action → Option State
  | .log n call aged => match s.pcs (.call n) with
      | .outside =>
          let t := s.append call
          if batchSize ≤ call.buffered t.pending ∨ aged then some (t.setPc (.call n) .waitFlush)
          else some t
      | _ => none
  | .flush n => match s.pcs (.call n) with
      | .outside => some (s.setPc (.call n) .waitFlush)
      | _ => none
  | .wakeTimer => match s.pcs .timer with
      | .outside => if s.pending = ∅ then some s else some (s.setPc .timer .waitFlush)
      | _ => none
  | .acquireFlush task => match s.pcs task, s.flushLock with
      | .waitFlush, none =>
          if s.pending = ∅ then some (s.setPc task .outside) else some (s.drain task)
      | _, _ => none
  | .acquireWrite task => match s.pcs task, s.writeLock with
      | .waitWrite batch attempt, none => some (s.acquireWrite task batch attempt)
      | _, _ => none
  | .execute task outcome => match s.pcs task with
      | .awaiting stage batch attempt none => some (s.execute task stage batch attempt outcome)
      | _ => none
  | .resume task => match s.pcs task with
      | .awaiting stage batch attempt (some result) =>
          some (s.resume task stage batch attempt result)
      | _ => none
  | .wake task => match s.pcs task with
      | .backoff batch attempt => some (s.setPc task (.waitWrite batch (attempt + 1)))
      | _ => none
  | .endCheckpoint task => match s.pcs task with
      | .checkpointing => some (s.release task)
      | _ => none
  | .lockWrite n => match s.pcs (.call n), s.writeLock with
      | .outside, none => some (s.lockWrite n)
      | _, _ => none
  | .unlockWrite n commits => match s.pcs (.call n) with
      | .writing => some (s.unlockWrite n commits)
      | _ => none

/-- A store after init() or before it, with or without a run. -/
def start (conn runKnown : Bool) : State where
  db := ⟨∅, none⟩
  pending := ∅
  flushLock := none
  writeLock := none
  conn := conn
  runKnown := runKnown
  pcs := fun task => match task with
    | .timer => .absent
    | _ => .outside

end Blockchecks.StoreFlush
