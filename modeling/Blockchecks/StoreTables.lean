import Blockchecks.ResumeSkip
import Blockchecks.StoreFlush

namespace Blockchecks.StoreTables

open RunStore RunLog ResumeSkip StoreFlush

/-- Insert an entry under the id that its upsert has selected. -/
def insertEntry (runId : Nat) (db : Db) (entry : TcpEntry) : Db :=
  match h : selectStrategy db.strategies entry.strategy entry.proto with
  | some s => db.insertTcp runId s (List.mem_of_find?_eq_some h) entry.columns
  | none => db

/-- What a statement of a flush does to the tables of strategies and TCP results. -/
def execute (runId : Nat) (db : Db) : Stmt → Db
  | .ensureStrategy name proto configPath => db.ensureStrategy name proto configPath
  | .insertTcp rows => rows.foldl (insertEntry runId) db
  | .insertUdp _ => db

def Has (db : Db) (key : String × String) : Prop := key ∈ db.strategies.map Strategy.key

variable {runId : Nat} {db : Db} {key : String × String} {entry : TcpEntry}

theorem has_ensureStrategy (name proto configPath : String) (h : Has db key) :
    Has (db.ensureStrategy name proto configPath) key := by
  obtain ⟨s, hs, rfl⟩ := List.mem_map.mp h
  obtain ⟨s', hs', _, hkey⟩ := upsertStrategy_keeps hs name proto configPath
  exact List.mem_map.mpr ⟨s', hs', hkey⟩

theorem ensureStrategy_has (db : Db) (name proto configPath : String) :
    Has (db.ensureStrategy name proto configPath) (name, proto) := by
  obtain ⟨s, hs, hkey, _⟩ := selectStrategy_upsert db.strategies name proto configPath
  exact List.mem_map.mpr ⟨s, hs, hkey⟩

theorem selectStrategy_of_has {strategies : List Strategy} {name proto : String}
    (h : (name, proto) ∈ strategies.map Strategy.key) :
    ∃ s ∈ strategies, s.key = (name, proto) ∧ selectStrategy strategies name proto = some s := by
  obtain ⟨s, hs, hkey⟩ := List.mem_map.mp h
  rw [selectStrategy]
  cases hfind : strategies.find? (fun s => s.key = (name, proto)) with
  | none => exact absurd (List.find?_eq_none.mp hfind s hs) (by simp [hkey])
  | some s' =>
      exact ⟨s', List.mem_of_find?_eq_some hfind, by simpa using List.find?_some hfind, rfl⟩

theorem insertEntry_strategies (runId : Nat) (db : Db) (entry : TcpEntry) :
    (insertEntry runId db entry).strategies = db.strategies := by
  rw [insertEntry]
  split <;> rfl

theorem log_insertEntry (h : Has db (entry.strategy, entry.proto)) :
    log (insertEntry runId db entry) = log db ++ [loggedEntry runId entry] := by
  obtain ⟨s, _, hkey, hselect⟩ := selectStrategy_of_has h
  obtain ⟨hname, hproto⟩ := Prod.mk.inj hkey
  rw [insertEntry]
  split
  next s' hs' =>
    obtain rfl : s = s' := Option.some.inj (hselect.symm.trans hs')
    rw [log_insertTcp, hname, hproto]
    rfl
  next hnone => exact absurd (hselect.symm.trans hnone) (Option.some_ne_none s)

theorem log_insertEntries {entries : List TcpEntry}
    (h : ∀ entry ∈ entries, Has db (entry.strategy, entry.proto)) :
    log (entries.foldl (insertEntry runId) db) = log db ++ entries.map (loggedEntry runId) := by
  induction entries generalizing db with
  | nil => exact (List.append_nil _).symm
  | cons entry entries ih =>
      have hrest : ∀ e ∈ entries, Has (insertEntry runId db entry) (e.strategy, e.proto) := by
        intro e he
        rw [Has, insertEntry_strategies]
        exact h e (List.mem_cons_of_mem _ he)
      rw [List.foldl_cons, ih hrest, log_insertEntry (h entry List.mem_cons_self), List.map_cons,
        List.append_assoc, List.singleton_append]

theorem log_ensureStrategies (runId : Nat) (db : Db) (cache : List (String × String))
    (keys : List (String × String × String)) :
    log ((ensureStrategies cache keys).foldl (execute runId) db) = log db := by
  induction keys generalizing cache db with
  | nil => rfl
  | cons k keys ih =>
      rw [ensureStrategies]
      split
      · exact ih db cache
      · exact (ih _ _).trans (log_ensureStrategy db ..)

/-- After the upserts every strategy of the cache and of the list is in the table. -/
theorem has_ensureStrategies (runId : Nat) {cache : List (String × String)}
    (keys : List (String × String × String)) (hcache : ∀ key ∈ cache, Has db key) :
    (∀ key, Has db key → Has ((ensureStrategies cache keys).foldl (execute runId) db) key) ∧
      ∀ k ∈ keys, Has ((ensureStrategies cache keys).foldl (execute runId) db) (k.1, k.2.1) := by
  induction keys generalizing cache db with
  | nil => exact ⟨fun _ h => h, fun _ hk => absurd hk List.not_mem_nil⟩
  | cons k keys ih =>
      obtain ⟨name, proto, configPath⟩ := k
      rw [ensureStrategies]
      split
      next hin =>
        obtain ⟨hkeep, hall⟩ := ih hcache
        have hmem : (name, proto) ∈ cache := List.contains_iff_mem.mp hin
        refine ⟨hkeep, ?_⟩
        intro k hk
        rcases List.mem_cons.mp hk with rfl | hk
        · exact hkeep _ (hcache _ hmem)
        · exact hall k hk
      · have hnew : Has (db.ensureStrategy name proto configPath) (name, proto) :=
          ensureStrategy_has db name proto configPath
        have hcache' : ∀ key ∈ (name, proto) :: cache,
            Has (db.ensureStrategy name proto configPath) key := by
          intro key hkey
          rcases List.mem_cons.mp hkey with rfl | hkey
          · exact hnew
          · exact has_ensureStrategy name proto configPath (hcache key hkey)
        obtain ⟨hkeep, hall⟩ := ih hcache'
        refine ⟨fun key h => hkeep key (has_ensureStrategy name proto configPath h), ?_⟩
        intro k hk
        rcases List.mem_cons.mp hk with rfl | hk
        · exact hkeep _ hnew
        · exact hall k hk

/-- A flush logs what writing its rows one by one logs. -/
theorem log_statements (runId : Nat) (db : Db) (batch : Rows) :
    log ((statements batch).foldl (execute runId) db) = log (writeAll db runId batch.tcp) := by
  have hcache : ∀ key ∈ ([] : List (String × String)), Has db key :=
    fun _ hkey => absurd hkey List.not_mem_nil
  obtain ⟨_, hall⟩ := has_ensureStrategies runId
    (batch.tcp.map (fun e => (e.strategy, e.proto, e.configPath))) hcache
  have hinsert (db : Db) (h : ∀ e ∈ batch.tcp, Has db (e.strategy, e.proto)) :
      log ((if batch.tcp = [] then [] else [.insertTcp batch.tcp]).foldl (execute runId) db) =
        log db ++ batch.tcp.map (loggedEntry runId) := by
    split
    next hnil =>
      rw [hnil]
      exact (List.append_nil _).symm
    · exact log_insertEntries h
  have hudp (db : Db) :
      (if batch.udp = [] then [] else [.insertUdp batch.udp]).foldl (execute runId) db = db := by
    split <;> rfl
  rw [statements, List.foldl_append, List.foldl_append, List.foldl_append, hudp,
    log_ensureStrategies, hinsert, log_ensureStrategies, log_writeAll]
  intro e he
  exact hall _ (List.mem_map_of_mem he)

/-- Over any sequence of flushes the table logs their rows in order. -/
theorem log_flushes (runId : Nat) (db : Db) (batches : List Rows) :
    log (batches.foldl (fun db batch => (statements batch).foldl (execute runId) db) db) =
      log db ++ batches.flatMap (fun batch => batch.tcp.map (loggedEntry runId)) := by
  induction batches generalizing db with
  | nil => exact (List.append_nil _).symm
  | cons batch batches ih =>
      rw [List.foldl_cons, ih, log_statements, log_writeAll, List.flatMap_cons, List.append_assoc]

end Blockchecks.StoreTables
