import Mathlib.Data.List.Pairwise
import Mathlib.Data.Rat.Defs
import Mathlib.Logic.Function.Basic

namespace Blockchecks.PassMigration

/-- A row of pass_strategies with the values as they are stored. -/
structure Row where
  id : Int
  strategy : String
  domain : String
  protocol : Option String
  latencyMs : Option ℚ
  httpCode : Option Int
  approved : Option Int
  checkedAt : String
  deriving DecidableEq

/-- The columns that a unique index of the table names. -/
def Row.column (row : Row) (name : String) : Option String :=
  if name = "strategy" then some row.strategy
  else if name = "domain" then some row.domain
  else if name = "protocol" then row.protocol
  else none

/-- Two rows that cannot stand in one table; a NULL is like no other value. -/
def Clash (unique : List String) (a b : Row) : Prop :=
  a.id = b.id ∨ ∀ name ∈ unique, a.column name ≠ none ∧ a.column name = b.column name

instance (unique : List String) (a b : Row) : Decidable (Clash unique a b) :=
  inferInstanceAs (Decidable (_ ∨ _))

/-- A table with an automatic index over some of its columns. -/
structure Table where
  unique : List String
  rows : List Row
  sound : rows.Pairwise (fun a b => ¬ Clash unique a b)

abbrev Database := String → Option Table

inductive Statement where
  | create (ifNotExists : Bool) (name : String) (unique : List String)
  | copy (into source : String)
  | drop (name : String)
  | rename (old new : String)

/-- The row that the SELECT of the migration reads. -/
def Row.migrated (row : Row) : Row := { row with protocol := some (row.protocol.getD "tcp") }

def Table.insert (table : Table) (rows : List Row) : Option Table :=
  if h : (table.rows ++ rows).Pairwise (fun a b => ¬ Clash table.unique a b) then
    some { table with rows := table.rows ++ rows, sound := h }
  else none

/-- The effect of a statement, or none where it raises and changes nothing. -/
def execute (db : Database) : Statement → Option Database
  | .create ifNotExists name unique => match db name with
    | some _ => if ifNotExists then some db else none
    | none => some (Function.update db name (some ⟨unique, [], List.Pairwise.nil⟩))
  | .copy into source => do
      let old ← db source
      let new ← db into
      let table ← new.insert (old.rows.map Row.migrated)
      return Function.update db into (some table)
  | .drop name => (db name).map (fun _ => Function.update db name none)
  | .rename old new => match db old, db new with
    | some table, none => some (Function.update (Function.update db old none) new (some table))
    | _, _ => none

/-- Statement by statement, each in a transaction of its own: the database that is
left, and whether none of them raised. -/
def executescript (db : Database) : List Statement → Database × Bool
  | [] => (db, true)
  | statement :: script => match execute db statement with
    | some db => executescript db script
    | none => (db, false)

def strategiesSchema : List Statement :=
  [.create true "pass_strategies" ["strategy", "domain", "protocol"]]

def passStrategiesNeedsProtocolUnique (db : Database) : Bool :=
  (db "pass_strategies").any (fun table => table.unique = ["strategy", "domain"])

def migrationScript : List Statement :=
  [.create false "pass_strategies_new" ["strategy", "domain", "protocol"],
    .copy "pass_strategies_new" "pass_strategies",
    .drop "pass_strategies",
    .rename "pass_strategies_new" "pass_strategies"]

/-- Between which two statements of the migration the process ends. -/
inductive CrashPoint where
  | afterCreate | afterInsert | afterDrop
  deriving DecidableEq

def CrashPoint.statements : CrashPoint → Nat
  | .afterCreate => 1
  | .afterInsert => 2
  | .afterDrop => 3

inductive Outcome where
  | opened | raised | crashed
  deriving DecidableEq

/-- How a process that runs the migration ends if no statement raises, and what it
runs of the script. -/
def reached : Option CrashPoint → Outcome × List Statement
  | none => (.opened, migrationScript)
  | some point => (.crashed, migrationScript.take point.statements)

/-- _migrate_pass_strategies_protocol_unique, in a process that may end in it. -/
def migratePassStrategies (crash : Option CrashPoint) (db : Database) : Outcome × Database :=
  if passStrategiesNeedsProtocolUnique db then
    let script := executescript db (reached crash).2
    (if script.2 then (reached crash).1 else .raised, script.1)
  else (.opened, db)

def initStrategies (crash : Option CrashPoint) (db : Database) : Outcome × Database :=
  let schema := executescript db strategiesSchema
  if schema.2 then migratePassStrategies crash schema.1 else (.raised, schema.1)

/-- What is left after some processes that open the database and end in its
migration, unless they do not get there. -/
def afterCrashes (crashes : List CrashPoint) (db : Database) : Database :=
  crashes.foldl (fun db point => (initStrategies (some point) db).2) db

def passStrategies (db : Database) : List Row := ((db "pass_strategies").map Table.rows).getD []

def emptyTable : Table := ⟨["strategy", "domain", "protocol"], [], List.Pairwise.nil⟩

variable {db : Database} {legacy table : Table} {crash : Option CrashPoint}

theorem schema_keeps (h : db "pass_strategies" = some table) :
    executescript db strategiesSchema = (db, true) := by
  rw [strategiesSchema, executescript, execute, h]
  rfl

theorem schema_creates (h : db "pass_strategies" = none) : executescript db strategiesSchema =
    (Function.update db "pass_strategies" (some emptyTable), true) := by
  rw [strategiesSchema, executescript, execute, h]
  rfl

theorem init_current (h : db "pass_strategies" = some table)
    (hunique : table.unique ≠ ["strategy", "domain"]) : initStrategies crash db = (.opened, db) := by
  have hneeds : passStrategiesNeedsProtocolUnique db = false := by
    rw [passStrategiesNeedsProtocolUnique, h]
    exact decide_eq_false hunique
  rw [initStrategies, schema_keeps h, if_pos rfl, migratePassStrategies, hneeds,
    if_neg Bool.false_ne_true]

theorem init_missing (h : db "pass_strategies" = none) : initStrategies crash db =
    (.opened, Function.update db "pass_strategies" (some emptyTable)) := by
  have hneeds : passStrategiesNeedsProtocolUnique
      (Function.update db "pass_strategies" (some emptyTable)) = false := by
    rw [passStrategiesNeedsProtocolUnique, Function.update_self]
    decide
  rw [initStrategies, schema_creates h, if_pos rfl, migratePassStrategies, hneeds,
    if_neg Bool.false_ne_true]

/-- The rows of a legacy table fit into the new one. -/
theorem insert_legacy (hunique : legacy.unique = ["strategy", "domain"]) :
    ∃ table, emptyTable.insert (legacy.rows.map Row.migrated) = some table ∧
    table.unique = emptyTable.unique ∧ table.rows = legacy.rows.map Row.migrated := by
  have hsound : (emptyTable.rows ++ legacy.rows.map Row.migrated).Pairwise
      (fun a b => ¬ Clash emptyTable.unique a b) := by
    refine List.pairwise_map.mpr (legacy.sound.imp (fun hfree hclash => hfree ?_))
    refine hclash.imp id (fun hsame name hname => ?_)
    rw [hunique] at hname
    have hcolumn (row : Row) : row.migrated.column name = row.column name := by
      simp only [List.mem_cons, List.not_mem_nil, or_false] at hname
      rcases hname with rfl | rfl
      · rfl
      · rfl
    have hpart := hsame name (by rw [emptyTable]; exact List.mem_append_left ["protocol"] hname)
    rwa [hcolumn, hcolumn] at hpart
  exact ⟨_, dif_pos hsound, rfl, rfl⟩

/-- What the migration of a legacy table leaves in the two tables. -/
def Left (legacy : Table) : Option CrashPoint → Database → Prop
  | none, db => passStrategies db = legacy.rows.map Row.migrated
  | some .afterDrop, db => db "pass_strategies" = none
  | some _, db => db "pass_strategies" = some legacy ∧ (db "pass_strategies_new").isSome = true

section legacy

variable (h : db "pass_strategies" = some legacy) (hunique : legacy.unique = ["strategy", "domain"])
include h hunique

theorem init_legacy : initStrategies crash db =
    (if (executescript db (reached crash).2).2 then (reached crash).1 else .raised,
      (executescript db (reached crash).2).1) := by
  have hneeds : passStrategiesNeedsProtocolUnique db = true := by
    rw [passStrategiesNeedsProtocolUnique, h]
    exact decide_eq_true hunique
  rw [initStrategies, schema_keeps h, if_pos rfl, migratePassStrategies, hneeds, if_pos rfl]

/-- The table that an interrupted migration leaves behind stops every later one. -/
theorem init_blocked (hnew : (db "pass_strategies_new").isSome = true) :
    initStrategies crash db = (.raised, db) := by
  obtain ⟨new, hnew⟩ := Option.isSome_iff_exists.mp hnew
  have hscript : ∃ script, (reached crash).2 =
      .create false "pass_strategies_new" ["strategy", "domain", "protocol"] :: script := by
    cases crash with
    | none => exact ⟨_, rfl⟩
    | some point => cases point with
      | afterCreate | afterInsert | afterDrop => exact ⟨_, rfl⟩
  obtain ⟨script, hscript⟩ := hscript
  rw [init_legacy h hunique, hscript, executescript, execute, hnew]
  rfl

theorem execute_legacy (hnew : db "pass_strategies_new" = none) (crash : Option CrashPoint) :
    ∃ db', initStrategies crash db = ((reached crash).1, db') ∧ Left legacy crash db' := by
  obtain ⟨table, hinsert, -, hrows⟩ := insert_legacy hunique
  let created := Function.update db "pass_strategies_new" (some emptyTable)
  let copied := Function.update created "pass_strategies_new" (some table)
  let dropped := Function.update copied "pass_strategies" none
  have hcreate : execute db (.create false "pass_strategies_new" ["strategy", "domain", "protocol"]) =
      some created := by
    rw [execute, hnew]
    rfl
  have hempty : created "pass_strategies_new" = some emptyTable := Function.update_self ..
  have hcopy : execute created (.copy "pass_strategies_new" "pass_strategies") = some copied := by
    have hold : created "pass_strategies" = some legacy :=
      (Function.update_of_ne (by decide) _ _).trans h
    rw [execute, hold, hempty]
    simp only [Option.bind_eq_bind, Option.bind_some, hinsert]
    rfl
  have hold : copied "pass_strategies" = some legacy :=
    (Function.update_of_ne (by decide) _ _).trans ((Function.update_of_ne (by decide) _ _).trans h)
  have hkept : copied "pass_strategies_new" = some table := Function.update_self ..
  have hdrop : execute copied (.drop "pass_strategies") = some dropped := by
    rw [execute, hold]
    rfl
  let renamed :=
    Function.update (Function.update dropped "pass_strategies_new" none) "pass_strategies" (some table)
  have hrename : execute dropped (.rename "pass_strategies_new" "pass_strategies") = some renamed := by
    have hgone : dropped "pass_strategies" = none := Function.update_self ..
    have hleft : dropped "pass_strategies_new" = some table :=
      (Function.update_of_ne (by decide) _ _).trans hkept
    rw [execute, hgone, hleft]
  rw [init_legacy h hunique]
  cases crash with
  | none =>
      refine ⟨renamed, ?_, ?_⟩
      · simp only [reached, migrationScript, executescript, hcreate, hcopy, hdrop, hrename, if_true]
      · have hmain : renamed "pass_strategies" = some table := Function.update_self ..
        rw [Left, passStrategies, hmain]
        exact hrows
  | some point =>
      cases point with
      | afterCreate =>
          refine ⟨created, ?_, (Function.update_of_ne (by decide) _ _).trans h, ?_⟩
          · simp only [reached, CrashPoint.statements, migrationScript, List.take_succ_cons, List.take_zero,
              executescript, hcreate, if_true]
          · rw [hempty]
            rfl
      | afterInsert =>
          refine ⟨copied, ?_, hold, ?_⟩
          · simp only [reached, CrashPoint.statements, migrationScript, List.take_succ_cons, List.take_zero,
              executescript, hcreate, hcopy, if_true]
          · rw [hkept]
            rfl
      | afterDrop =>
          refine ⟨dropped, ?_, Function.update_self ..⟩
          simp only [reached, CrashPoint.statements, migrationScript, List.take_succ_cons, List.take_zero,
            executescript, hcreate, hcopy, hdrop, if_true]

end legacy

/-- Once the new table is left over, no process gets past the statement that creates it. -/
theorem blocked_after (h : db "pass_strategies" = some legacy)
    (hunique : legacy.unique = ["strategy", "domain"])
    (hnew : (db "pass_strategies_new").isSome = true) (crashes : List CrashPoint) :
    afterCrashes crashes db = db := by
  rw [afterCrashes]
  induction crashes with
  | nil => rfl
  | cons point crashes ih =>
      rw [List.foldl_cons, init_blocked h hunique hnew]
      exact ih

/-- Once the legacy table is dropped, the next process makes an empty one, which is
in order. -/
theorem empty_after (h : db "pass_strategies" = none ∨ db "pass_strategies" = some emptyTable)
    (crashes : List CrashPoint) :
    ∃ db', initStrategies none (afterCrashes crashes db) = (.opened, db') ∧ passStrategies db' = [] := by
  induction crashes generalizing db with
  | nil =>
      rw [afterCrashes, List.foldl_nil]
      rcases h with h | h
      · exact ⟨_, init_missing h, by rw [passStrategies, Function.update_self]; rfl⟩
      · exact ⟨_, init_current h (by decide), by rw [passStrategies, h]; rfl⟩
  | cons point crashes ih =>
      rw [afterCrashes, List.foldl_cons]
      refine ih (Or.inr ?_)
      rcases h with h | h
      · rw [init_missing h]
        exact Function.update_self "pass_strategies" (some emptyTable) db
      · rw [init_current h (by decide)]
        exact h

/-- The table opens with all its rows if and only if no process ended in the
migration, or the first that did had dropped an empty table. -/
theorem migration_keeps_rows_iff (h : db "pass_strategies" = some legacy)
    (hunique : legacy.unique = ["strategy", "domain"]) (hnew : db "pass_strategies_new" = none)
    (crashes : List CrashPoint) :
    ((initStrategies none (afterCrashes crashes db)).1 = .opened ∧
      ∀ row ∈ legacy.rows, row.migrated ∈ passStrategies (initStrategies none (afterCrashes crashes db)).2) ↔
    crashes = [] ∨ crashes.head? = some .afterDrop ∧ legacy.rows = [] := by
  cases crashes with
  | nil =>
      obtain ⟨db', hinit, hleft⟩ := execute_legacy h hunique hnew none
      refine iff_of_true ?_ (Or.inl rfl)
      rw [afterCrashes, List.foldl_nil, hinit]
      refine ⟨rfl, fun row hrow => ?_⟩
      rw [hleft]
      exact List.mem_map_of_mem hrow
  | cons point crashes =>
      obtain ⟨db₁, hinit, hleft⟩ := execute_legacy h hunique hnew (some point)
      have hafter : afterCrashes (point :: crashes) db = afterCrashes crashes db₁ := by
        rw [afterCrashes, List.foldl_cons, hinit]
        rfl
      have hblocked (hold : db₁ "pass_strategies" = some legacy)
          (hsome : (db₁ "pass_strategies_new").isSome = true) :
          (initStrategies none (afterCrashes crashes db₁)).1 ≠ .opened := by
        rw [blocked_after hold hunique hsome, init_blocked hold hunique hsome]
        exact fun h => nomatch h
      rw [hafter, List.head?_cons]
      cases point with
      | afterCreate => exact iff_of_false (fun hand => hblocked hleft.1 hleft.2 hand.1) (by simp)
      | afterInsert => exact iff_of_false (fun hand => hblocked hleft.1 hleft.2 hand.1) (by simp)
      | afterDrop =>
          obtain ⟨db', hopened, hrows⟩ := empty_after (Or.inl hleft) crashes
          rw [hopened, hrows, or_iff_right (List.cons_ne_nil _ _), and_iff_right rfl, and_iff_right rfl,
            List.eq_nil_iff_forall_not_mem]
          exact forall₂_congr (fun row _ => iff_of_eq (eq_false List.not_mem_nil))

def legacyRow : Row := ⟨1, "fake:ttl=3", "example.com", none, some 50, some 200, some 1, "2026-01-01T00:00:00"⟩

def legacyTable (rows : List Row)
    (sound : rows.Pairwise (fun a b => ¬ Clash ["strategy", "domain"] a b)) : Table :=
  ⟨["strategy", "domain"], rows, sound⟩

def databaseOf (table : Table) : Database := fun name => if name = "pass_strategies" then some table else none

/-- Without a crash the row is in the new table, with the protocol it lacked. -/
theorem uninterrupted : { legacyRow with protocol := some "tcp" } ∈ passStrategies (initStrategies none
    (afterCrashes [] (databaseOf (legacyTable [legacyRow] (List.pairwise_singleton ..))))).2 :=
  ((migration_keeps_rows_iff rfl rfl rfl []).mpr (Or.inl rfl)).2 legacyRow (List.mem_singleton_self _)

/-- A process that ends behind the first statement leaves a database that no longer opens. -/
theorem never_opens_again : (initStrategies none (afterCrashes [.afterCreate]
    (databaseOf (legacyTable [legacyRow] (List.pairwise_singleton ..))))).1 = .raised := by
  decide +kernel

end Blockchecks.PassMigration
