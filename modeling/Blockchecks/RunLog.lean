import Blockchecks.RunStore

namespace Blockchecks.RunLog

open FailPhases RunStore

/-- A stored row with the name and protocol of its strategy. -/
structure Logged where
  name : String
  proto : String
  runId : Option Nat
  columns : TcpColumns
  deriving DecidableEq

def loggedOf (p : TcpRow × Strategy) : Logged := ⟨p.2.name, p.2.proto, p.1.runId, p.1.columns⟩

/-- What the store is for: the sequence of everything logged. -/
def log (db : Db) : List Logged := db.joined.map loggedOf

def Logged.is (l : Logged) (proto : String) (scope : Option Nat → Bool) (key : String × String) :
    Bool :=
  l.proto = proto ∧ scope l.runId = true ∧ l.name = key.1 ∧ l.columns.domain = key.2

theorem Logged.is_iff {l : Logged} {proto : String} {scope : Option Nat → Bool}
    {key : String × String} : l.is proto scope key = true ↔
      l.proto = proto ∧ scope l.runId = true ∧ l.name = key.1 ∧ l.columns.domain = key.2 :=
  decide_eq_true_iff

def lastLogged (rows : List Logged) (proto : String) (scope : Option Nat → Bool)
    (key : String × String) : Option Logged :=
  (rows.filter (fun l => l.is proto scope key)).getLast?

variable {db : Db} {t : TcpRow} {s : Strategy} {proto : String} {scope : Option Nat → Bool}
  {key : String × String}

/-- Of elements with distinct keys only one has the key of a given one. -/
theorem filter_key_eq {α β : Type} [DecidableEq β] {f : α → β} {xs : List α} {x : α}
    (h : (xs.map f).Nodup) (hx : x ∈ xs) : xs.filter (fun y => f y = f x) = [x] := by
  induction xs with
  | nil => exact absurd hx List.not_mem_nil
  | cons y rest ih =>
      rw [List.map_cons, List.nodup_cons] at h
      rcases List.mem_cons.mp hx with rfl | hx
      · have hrest : rest.filter (fun y => decide (f y = f x)) = [] := by
          rw [List.filter_eq_nil_iff]
          intro y hy hkey
          exact h.1 (List.mem_map.mpr ⟨y, hy, by simpa using hkey⟩)
        simp [hrest]
      · have hne : f y ≠ f x := fun he => h.1 (List.mem_map.mpr ⟨x, hx, he.symm⟩)
        rw [List.filter_cons_of_neg (by simpa using hne)]
        exact ih h.2 hx

theorem mem_joined : (t, s) ∈ db.joined ↔ t ∈ db.tcp ∧ s ∈ db.strategies ∧ s.id = t.strategyId := by
  simp only [Db.joined, List.mem_flatMap, List.mem_map, List.mem_filter, Prod.mk.injEq,
    decide_eq_true_eq]
  constructor
  · rintro ⟨t', ht, s', ⟨hs, hid⟩, rfl, rfl⟩
    exact ⟨ht, hs, hid⟩
  · rintro ⟨ht, hs, hid⟩
    exact ⟨t, ht, s, ⟨hs, hid⟩, rfl, rfl⟩

theorem joined_rows (db : Db) : db.joined.map Prod.fst = db.tcp := by
  have hrows : ∀ rows : List TcpRow, (∀ t ∈ rows, t ∈ db.tcp) →
      (rows.flatMap (fun t =>
        (db.strategies.filter (fun s => s.id = t.strategyId)).map (Prod.mk t))).map Prod.fst = rows := by
    intro rows
    induction rows with
    | nil => intro _; rfl
    | cons t rows ih =>
        intro hmem
        obtain ⟨s, hs, hid⟩ := db.references t (hmem t List.mem_cons_self)
        rw [List.flatMap_cons, List.map_append, ih (fun t' ht' => hmem t' (List.mem_cons_of_mem t ht')),
          ← hid, filter_key_eq db.strategyIds hs]
        rfl
  exact hrows db.tcp (fun _ h => h)

/-- Rows of one strategy are rows of one name and protocol. -/
theorem strategyId_eq_iff {t' : TcpRow} {s' : Strategy} (h : (t, s) ∈ db.joined)
    (h' : (t', s') ∈ db.joined) : t'.strategyId = t.strategyId ↔ s'.name = s.name ∧ s'.proto = s.proto := by
  obtain ⟨_, hs, hid⟩ := mem_joined.mp h
  obtain ⟨_, hs', hid'⟩ := mem_joined.mp h'
  rw [← hid, ← hid']
  constructor
  · intro he
    rw [List.inj_on_of_nodup_map db.strategyIds hs' hs he]
    exact ⟨rfl, rfl⟩
  · rintro ⟨hname, hproto⟩
    have hkey : s'.key = s.key := Prod.ext hname hproto
    rw [List.inj_on_of_nodup_map db.strategyKeys hs' hs hkey]

theorem eq_of_row_id {p p' : TcpRow × Strategy} (h : p ∈ db.joined) (h' : p' ∈ db.joined)
    (hid : p.1.id = p'.1.id) : p = p' := by
  have hids : db.joined.map (fun p => p.1.id) = db.tcp.map TcpRow.id := by
    rw [← joined_rows db, List.map_map]
    rfl
  have hnodup : (db.joined.map (fun p => p.1.id)).Nodup := by
    rw [hids, List.Nodup, List.pairwise_map]
    exact db.rowIds.imp Nat.ne_of_lt
  exact List.inj_on_of_nodup_map hnodup h h' hid

/-- The correlated subquery selects the last logged row of the key. -/
theorem latest_iff (h : (t, s) ∈ db.joined) :
    some t.id = db.latestId scope t ↔
      (db.joined.filter (fun p => (loggedOf p).is s.proto scope (s.name, t.columns.domain))).getLast? =
        some (t, s) := by
  have hrows : db.tcp.filter (fun t2 => t2.strategyId = t.strategyId ∧
        t2.columns.domain = t.columns.domain ∧ scope t2.runId = true) =
      (db.joined.filter (fun p =>
        (loggedOf p).is s.proto scope (s.name, t.columns.domain))).map Prod.fst := by
    conv_lhs => rw [← joined_rows db, List.filter_map]
    congr 1
    apply List.filter_congr
    rintro ⟨t', s'⟩ h'
    simp only [Function.comp_apply, Logged.is, loggedOf, strategyId_eq_iff h h']
    congr 1
    apply propext
    tauto
  rw [Db.latestId, hrows, List.getLast?_map, Option.map_map]
  constructor
  · intro hlast
    obtain ⟨p, hp, hid⟩ := Option.map_eq_some_iff.mp hlast.symm
    have hmem : p ∈ db.joined := List.mem_of_mem_filter (List.mem_of_getLast? hp)
    rw [hp, eq_of_row_id hmem h hid]
  · intro hlast
    rw [hlast]
    rfl

theorem mem_latestRows :
    (t, s) ∈ db.latestRows proto scope ↔ s.proto = proto ∧
      (db.joined.filter (fun p => (loggedOf p).is proto scope (s.name, t.columns.domain))).getLast? =
        some (t, s) := by
  simp only [Db.latestRows, List.mem_filter, decide_eq_true_eq]
  constructor
  · rintro ⟨hj, rfl, _, hlast⟩
    exact ⟨rfl, (latest_iff hj).mp hlast⟩
  · rintro ⟨rfl, hlast⟩
    have hmem := List.mem_filter.mp (List.mem_of_getLast? hlast)
    exact ⟨hmem.1, rfl, (Logged.is_iff.mp hmem.2).2.1, (latest_iff hmem.1).mpr hlast⟩

/-- A key has a latest row with some property exactly when its last logged row has it. -/
theorem exists_latestRow_iff {P : TcpColumns → Prop} :
    (∃ p ∈ db.latestRows proto scope, Db.keyOf p = key ∧ P p.1.columns) ↔
      ∃ l, lastLogged (log db) proto scope key = some l ∧ P l.columns := by
  have hlast : lastLogged (log db) proto scope key =
      ((db.joined.filter (fun p => (loggedOf p).is proto scope key)).getLast?).map loggedOf := by
    rw [lastLogged, log, List.filter_map, List.getLast?_map]
    rfl
  rw [hlast]
  constructor
  · rintro ⟨⟨t, s⟩, hp, rfl, hP⟩
    refine ⟨loggedOf (t, s), ?_, hP⟩
    rw [Db.keyOf, (mem_latestRows.mp hp).2]
    rfl
  · rintro ⟨l, hl, hP⟩
    obtain ⟨⟨t, s⟩, hp, rfl⟩ := Option.map_eq_some_iff.mp hl
    have his := Logged.is_iff.mp (List.mem_filter.mp (List.mem_of_getLast? hp)).2
    have hkey : (s.name, t.columns.domain) = key := Prod.ext his.2.2.1 his.2.2.2
    exact ⟨(t, s), mem_latestRows.mpr ⟨his.1, hkey ▸ hp⟩, hkey, hP⟩

theorem log_of_same_keys {db db' : Db} (htcp : db'.tcp = db.tcp)
    (hkeep : ∀ s ∈ db.strategies, ∃ s' ∈ db'.strategies, s'.id = s.id ∧ s'.key = s.key) :
    log db' = log db := by
  have hrows : ∀ rows : List TcpRow, (∀ t ∈ rows, t ∈ db.tcp) →
      (rows.flatMap (fun t => (db'.strategies.filter (fun s => s.id = t.strategyId)).map
        (fun s => loggedOf (t, s)))) =
      rows.flatMap (fun t => (db.strategies.filter (fun s => s.id = t.strategyId)).map
        (fun s => loggedOf (t, s))) := by
    intro rows
    induction rows with
    | nil => intro _; rfl
    | cons t rows ih =>
        intro hmem
        obtain ⟨s, hs, hid⟩ := db.references t (hmem t List.mem_cons_self)
        obtain ⟨s', hs', hid', hkey⟩ := hkeep s hs
        obtain ⟨hname, hproto⟩ := Prod.mk.inj hkey
        rw [List.flatMap_cons, List.flatMap_cons, ih (fun t' ht' => hmem t' (List.mem_cons_of_mem t ht')),
          ← hid, filter_key_eq db.strategyIds hs, ← hid', filter_key_eq db'.strategyIds hs']
        simp only [List.map_singleton, loggedOf, hname, hproto]
  have hlog : ∀ db : Db, log db = db.tcp.flatMap (fun t =>
      (db.strategies.filter (fun s => s.id = t.strategyId)).map (fun s => loggedOf (t, s))) := by
    intro db
    rw [log, Db.joined, List.map_flatMap]
    simp only [List.map_map]
    rfl
  rw [hlog, hlog, htcp]
  exact hrows db.tcp (fun _ h => h)

theorem log_ensureStrategy (db : Db) (name proto configPath : String) :
    log (db.ensureStrategy name proto configPath) = log db := by
  apply log_of_same_keys
  · rfl
  · intro s hs
    exact upsertStrategy_keeps hs name proto configPath

theorem log_insertTcp (db : Db) (runId : Nat) (s : Strategy) (hs : s ∈ db.strategies)
    (columns : TcpColumns) :
    log (db.insertTcp runId s hs columns) = log db ++ [⟨s.name, s.proto, some runId, columns⟩] := by
  have hone : db.strategies.filter (fun s' => s'.id = s.id) = [s] := filter_key_eq db.strategyIds hs
  simp only [log, Db.joined, Db.insertTcp, List.flatMap_append, List.map_append,
    List.flatMap_singleton, hone]
  rfl

/-- Writing an entry appends it to the log under its own name and protocol. -/
theorem log_write (db : Db) (runId : Nat) (entry : TcpEntry) :
    log (db.write runId entry) =
      log db ++ [⟨entry.strategy, entry.proto, some runId, entry.columns⟩] := by
  obtain ⟨s, _, hkey, hselect⟩ := selectStrategy_upsert db.strategies entry.strategy entry.proto
    entry.configPath
  obtain ⟨hname, hproto⟩ := Prod.mk.inj hkey
  rw [Db.write]
  split
  next s' h =>
    obtain rfl : s = s' := Option.some.inj (hselect.symm.trans h)
    rw [log_insertTcp, log_ensureStrategy, hname, hproto]
  next h => exact absurd (hselect.symm.trans h) (Option.some_ne_none s)

theorem hasTcpResult_iff {runId : Nat} {strategy domain : String} :
    db.hasTcpResult runId strategy domain proto = true ↔
      ∃ l ∈ log db, l.is proto (inRun runId) (strategy, domain) = true := by
  simp only [Db.hasTcpResult, List.any_eq_true, log, List.mem_map, decide_eq_true_eq]
  constructor
  · rintro ⟨p, hp, hname, hproto, hdom, hrun⟩
    exact ⟨loggedOf p, ⟨p, hp, rfl⟩, Logged.is_iff.mpr ⟨hproto, decide_eq_true hrun, hname, hdom⟩⟩
  · rintro ⟨_, ⟨p, hp, rfl⟩, his⟩
    obtain ⟨hproto, hrun, hname, hdom⟩ := Logged.is_iff.mp his
    exact ⟨p, hp, hname, hproto, hdom, of_decide_eq_true hrun⟩

theorem mem_getCompletedTcpKeys {runId : Nat} :
    key ∈ db.getCompletedTcpKeys (some runId) proto ↔
      ∃ l, lastLogged (log db) proto (inRun runId) key = some l ∧ l.columns.isWorking = true := by
  refine Iff.trans ?_ (exists_latestRow_iff (P := fun c => c.isWorking = true))
  simp only [Db.getCompletedTcpKeys, List.mem_toFinset, List.mem_map, List.mem_filter]
  constructor
  · rintro ⟨p, ⟨hp, hw⟩, hkey⟩
    exact ⟨p, hp, hkey, hw⟩
  · rintro ⟨p, hp, hkey, hw⟩
    exact ⟨p, ⟨hp, hw⟩, hkey⟩

def infraFails (rows : List Logged) (proto : String) (runId : Nat) (key : String × String) : Nat :=
  rows.countP (fun l => l.is proto (inRun runId) key && l.columns.isInfraFail)

theorem countInfraFailRows_eq (db : Db) (proto : String) (runId : Nat) (key : String × String) :
    db.countInfraFailRows key.1 key.2 proto runId = infraFails (log db) proto runId key := by
  rw [Db.countInfraFailRows, infraFails, log, List.countP_map, List.countP_filter]
  apply List.countP_congr
  intro p _
  simp only [Function.comp_apply, Bool.and_eq_true, Logged.is_iff, loggedOf,
    TcpColumns.isInfraFail_iff, inRun, decide_eq_true_iff]
  tauto

end Blockchecks.RunLog
