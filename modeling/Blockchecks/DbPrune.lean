import Blockchecks.SqlLogic

namespace Blockchecks.DbPrune

open SqlLogic

/-- A row of tcp_results, or of udp_results with its target for a domain. -/
structure ResultRow where
  id : Int
  strategyId : Option Int
  domain : String
  epochMs : Option Int
  timestamp : Option String
  deriving DecidableEq

/-- A table in the order of its primary key. -/
structure ResultTable where
  rows : List ResultRow
  ordered : rows.Pairwise (fun r r' => r.id < r'.id)

structure Database where
  tcpResults : Option ResultTable
  udpResults : Option ResultTable
  /-- The primary keys of the table strategies. -/
  strategies : Option (List Int)

structure Cutoffs where
  cutoffMs : Int
  cutoffIso : String

section queries

variable (params : Cutoffs)

def resultAge (r : ResultRow) : Truth :=
  disj (conj (isNotNull r.epochMs) (comparison (fun a b => decide (a < b)) r.epochMs (some params.cutoffMs)))
    (conj (conj (conj (isNull r.epochMs) (isNotNull r.timestamp))
        (comparison (fun a b => decide (a ≠ b)) r.timestamp (some "")))
      (comparison (fun a b => decide (a < b)) r.timestamp (some params.cutoffIso)))

def aged (r : ResultRow) : Bool := holds (resultAge params r)

def countAged (table : Option ResultTable) : Nat :=
  match table with
  | none => 0
  | some table => table.rows.countP (aged params)

def deleteAged (table : ResultTable) : ResultTable where
  rows := table.rows.filter (fun r => !aged params r)
  ordered := table.ordered.filter _

/-- The condition of the subqueries for a strategy's kept results. -/
def keeps (strategy : Int) (r : ResultRow) : Truth :=
  conj (comparison (fun a b => decide (a = b)) r.strategyId (some strategy)) (neg (resultAge params r))

/-- Without the table the subquery is SELECT 1 WHERE 0. -/
def keptResult (table : Option ResultTable) (strategy : Int) : Bool :=
  match table with
  | none => false
  | some table => table.rows.any (fun r => holds (keeps params strategy r))

def countOrphanStrategies (db : Database) : Nat :=
  match db.strategies with
  | none => 0
  | some strategies => strategies.countP (fun s =>
      !keptResult params db.tcpResults s && !keptResult params db.udpResults s)

end queries

def strategyIds (table : ResultTable) : List Int := table.rows.filterMap ResultRow.strategyId

/-- It names both tables of results, and is an error without one of them. -/
def orphanDelete (db : Database) : Option Database :=
  match db.tcpResults, db.udpResults, db.strategies with
  | some tcp, some udp, some strategies =>
      let used := strategies.filter (fun s => decide (s ∈ strategyIds tcp ++ strategyIds udp))
      some { db with strategies := some used }
  | _, _, _ => none

structure DbGcStats where
  tcpRows : Nat
  udpRows : Nat
  orphanStrategies : Nat
  skippedLock : Bool := false
  dryRun : Bool
  deriving DecidableEq

def pruneStats (db : Database) (params : Cutoffs) (dryRun orphanStrategies : Bool) : DbGcStats where
  tcpRows := countAged params db.tcpResults
  udpRows := countAged params db.udpResults
  orphanStrategies := if orphanStrategies then countOrphanStrategies params db else 0
  dryRun := dryRun

def deleteCounted (params : Cutoffs) (count : Nat) (table : Option ResultTable) : Option ResultTable :=
  if count = 0 then table else table.map (deleteAged params)

/-- The deletions of a run that is no dry run. An error takes all of them back. -/
def pruneDeletes (db : Database) (params : Cutoffs) (orphanStrategies : Bool) (stats : DbGcStats) : Database :=
  let aged := { db with
    tcpResults := deleteCounted params stats.tcpRows db.tcpResults
    udpResults := deleteCounted params stats.udpRows db.udpResults }
  if orphanStrategies && stats.orphanStrategies != 0 && db.strategies.isSome then (orphanDelete aged).getD db
  else aged

def pruneDbResults (db : Database) (params : Cutoffs) (dryRun orphanStrategies locked : Bool) :
    DbGcStats × Database :=
  let stats := pruneStats db params dryRun orphanStrategies
  if locked && !dryRun then ({ stats with skippedLock := true }, db)
  else if dryRun then (stats, db)
  else (stats, pruneDeletes db params orphanStrategies stats)

/-- The latest row of a strategy and a domain. -/
def latest (table : ResultTable) (strategy : Option Int) (domain : String) : Option ResultRow :=
  (table.rows.filter (fun r => decide (r.strategyId = strategy ∧ r.domain = domain))).getLast?

/-- Every row has its time, and a later row has no earlier one. -/
def Chronological (table : ResultTable) : Prop :=
  (∀ r ∈ table.rows, r.epochMs ≠ none) ∧
    table.rows.Pairwise (fun r r' => ∀ ms ms', r.epochMs = some ms → r'.epochMs = some ms' → ms ≤ ms')

/-- How many of the old elements are gone. -/
def numberGone {α : Type} [DecidableEq α] (old new : List α) : Nat := old.countP (fun a => decide (a ∉ new))

variable {params : Cutoffs}

/-- The condition on the age is never NULL. -/
theorem resultAge_known (r : ResultRow) : resultAge params r ≠ none := by
  rw [resultAge]
  cases r.epochMs with
  | some ms =>
      apply disj_known
      · exact conj_guard fun _ => Option.some_ne_none _
      · exact Option.some_ne_none _
  | none =>
      apply disj_known
      · exact Option.some_ne_none _
      · cases r.timestamp with
        | none => exact Option.some_ne_none _
        | some text =>
            have hleft : conj (conj (isNull (none : Option Int)) (isNotNull (some text)))
                (comparison (fun a b => decide (a ≠ b)) (some text) (some "")) = some (decide (text ≠ "")) := by
              by_cases h : text = "" <;> simp [comparison, conj, isNull, isNotNull, h]
            rw [hleft]
            exact conj_guard fun _ => Option.some_ne_none _

theorem aged_of_epoch {r : ResultRow} {ms : Int} (h : r.epochMs = some ms) :
    aged params r = decide (ms < params.cutoffMs) := by
  rw [aged, resultAge, h]
  by_cases hms : ms < params.cutoffMs <;> simp [comparison, conj, disj, isNull, isNotNull, holds, hms]

theorem keeps_holds (strategy : Int) (r : ResultRow) :
    holds (keeps params strategy r) = (decide (r.strategyId = some strategy) && !aged params r) := by
  rw [keeps, holds_conj, comparison_eq_some, holds_neg (resultAge_known r), aged]

theorem keptResult_eq (table : ResultTable) (strategy : Int) :
    keptResult params (some table) strategy = decide (strategy ∈ strategyIds (deleteAged params table)) := by
  rw [Bool.eq_iff_iff, keptResult, List.any_eq_true, decide_eq_true_iff, strategyIds, List.mem_filterMap]
  simp only [keeps_holds, deleteAged, List.mem_filter, Bool.and_eq_true, decide_eq_true_eq]
  exact exists_congr fun r => by tauto

/-- Where nothing is counted, not deleting is deleting. -/
theorem deleteAged_of_count {table : ResultTable} (h : countAged params (some table) = 0) :
    deleteAged params table = table := by
  have hrows : (deleteAged params table).rows = table.rows := by
    apply List.filter_eq_self.mpr
    intro r hr
    rw [countAged, List.countP_eq_zero] at h
    simpa using h r hr
  cases table
  simp only [deleteAged] at hrows ⊢
  congr

theorem deleteCounted_eq (table : ResultTable) :
    deleteCounted params (countAged params (some table)) (some table) = some (deleteAged params table) := by
  rw [deleteCounted]
  split
  next h => rw [deleteAged_of_count h]
  next => rfl

theorem numberGone_deleteAged (table : ResultTable) :
    numberGone table.rows (deleteAged params table).rows = countAged params (some table) := by
  apply List.countP_congr
  intro r hr
  simp [deleteAged, hr]

theorem numberGone_self {α : Type} [DecidableEq α] (xs : List α) : numberGone xs xs = 0 := by
  rw [numberGone, List.countP_eq_zero]
  intro a ha
  simpa using ha

theorem countOrphanStrategies_eq (tcp udp : ResultTable) (strategies : List Int) :
    countOrphanStrategies params ⟨some tcp, some udp, some strategies⟩ = strategies.countP (fun s =>
      decide (s ∉ strategyIds (deleteAged params tcp) ++ strategyIds (deleteAged params udp))) := by
  rw [countOrphanStrategies]
  simp only [keptResult_eq]
  apply List.countP_congr
  intro s _
  simp

theorem numberGone_filter {α : Type} [DecidableEq α] (xs : List α) (p : α → Bool) :
    numberGone xs (xs.filter p) = xs.countP (fun a => !p a) := by
  apply List.countP_congr
  intro a ha
  simp [ha]

/-- The tables that the deletions of a run leave. -/
theorem pruneDeletes_eq (tcp udp : ResultTable) (strategies : List Int) (orphanStrategies : Bool) :
    pruneDeletes ⟨some tcp, some udp, some strategies⟩ params orphanStrategies
        (pruneStats ⟨some tcp, some udp, some strategies⟩ params false orphanStrategies) =
      ⟨some (deleteAged params tcp), some (deleteAged params udp), some (if orphanStrategies then
        strategies.filter (fun s =>
          decide (s ∈ strategyIds (deleteAged params tcp) ++ strategyIds (deleteAged params udp)))
        else strategies)⟩ := by
  rw [pruneDeletes]
  simp only [pruneStats, deleteCounted_eq]
  cases orphanStrategies with
  | false => rfl
  | true =>
      by_cases hcount : countOrphanStrategies params ⟨some tcp, some udp, some strategies⟩ = 0
      · have hall : strategies.filter (fun s => decide (s ∈ strategyIds (deleteAged params tcp) ++
            strategyIds (deleteAged params udp))) = strategies := by
          apply List.filter_eq_self.mpr
          intro s hs
          rw [countOrphanStrategies_eq, List.countP_eq_zero] at hcount
          have hused := hcount s hs
          exact decide_eq_true (Decidable.not_not.mp fun hn => hused (decide_eq_true hn))
        simp only [hcount, hall, if_true]
        rfl
      · simp [hcount, orphanDelete]

/-- A condition that passes on to later elements keeps a suffix. -/
theorem filter_suffix {α : Type} {p : α → Bool} {xs : List α} (h : xs.Pairwise (fun a b => p a = true → p b = true)) :
    xs.filter p <:+ xs := by
  induction xs with
  | nil => exact List.suffix_refl []
  | cons x xs ih =>
      obtain ⟨hx, hxs⟩ := List.pairwise_cons.mp h
      cases hp : p x with
      | false =>
          rw [List.filter_cons_of_neg (by simp [hp])]
          exact (ih hxs).trans (List.suffix_cons x xs)
      | true =>
          have hall : (x :: xs).filter p = x :: xs := by
            apply List.filter_eq_self.mpr
            intro a ha
            rcases List.mem_cons.mp ha with rfl | ha
            · exact hp
            · exact hx a ha hp
          exact (congrArg (· <:+ x :: xs) hall).mpr (List.suffix_refl _)

theorem deleteAged_suffix {table : ResultTable} (h : Chronological table) :
    (deleteAged params table).rows <:+ table.rows := by
  apply filter_suffix
  apply h.2.imp_of_mem
  intro r r' hr hr' hle hkept
  obtain ⟨ms, hms⟩ := Option.ne_none_iff_exists'.mp (h.1 r hr)
  obtain ⟨ms', hms'⟩ := Option.ne_none_iff_exists'.mp (h.1 r' hr')
  have hlems := hle ms ms' hms hms'
  rw [aged_of_epoch hms] at hkept
  rw [aged_of_epoch hms']
  simp only [Bool.not_eq_true', decide_eq_false_iff_not] at hkept ⊢
  omega

theorem getLast?_suffix {α : Type} {xs ys : List α} (h : ys <:+ xs) (hne : ys ≠ []) : ys.getLast? = xs.getLast? := by
  obtain ⟨zs, rfl⟩ := h
  rw [List.getLast?_append, List.getLast?_eq_some_getLast hne, Option.some_or]

theorem latest_deleteAged {table : ResultTable} (h : Chronological table) {strategy : Option Int} {domain : String}
    (hleft : latest (deleteAged params table) strategy domain ≠ none) :
    latest (deleteAged params table) strategy domain = latest table strategy domain := by
  apply getLast?_suffix
  · exact (deleteAged_suffix h).filter _
  · exact fun hnil => hleft (by rw [latest, hnil, List.getLast?_nil])

/-- A run without a lock counts what it deletes, and what it leaves has its old latest rows. -/
theorem prune_keeps_latest_and_counts (tcp udp : ResultTable) (strategies : List Int) (params : Cutoffs)
    (orphanStrategies locked : Bool) :
    ∃ tcp' udp' strategies',
      (pruneDbResults ⟨some tcp, some udp, some strategies⟩ params false orphanStrategies false).2 =
        ⟨some tcp', some udp', some strategies'⟩ ∧
      (Chronological tcp → ∀ strategy domain, latest tcp' strategy domain ≠ none →
        latest tcp' strategy domain = latest tcp strategy domain) ∧
      (Chronological udp → ∀ strategy domain, latest udp' strategy domain ≠ none →
        latest udp' strategy domain = latest udp strategy domain) ∧
      (∀ s ∈ strategies, s ∈ strategyIds tcp' ++ strategyIds udp' → s ∈ strategies') ∧
      pruneDbResults ⟨some tcp, some udp, some strategies⟩ params true orphanStrategies locked =
        ({ tcpRows := numberGone tcp.rows tcp'.rows, udpRows := numberGone udp.rows udp'.rows,
            orphanStrategies := numberGone strategies strategies', dryRun := true },
          ⟨some tcp, some udp, some strategies⟩) := by
  refine ⟨_, _, _, pruneDeletes_eq tcp udp strategies orphanStrategies, ?_, ?_, ?_, ?_⟩
  · exact fun h _ _ => latest_deleteAged h
  · exact fun h _ _ => latest_deleteAged h
  · intro s hs hused
    split
    · exact List.mem_filter.mpr ⟨hs, decide_eq_true hused⟩
    · exact hs
  · have horphans : (if orphanStrategies then countOrphanStrategies params ⟨some tcp, some udp, some strategies⟩
        else 0) = numberGone strategies (if orphanStrategies then strategies.filter (fun s =>
          decide (s ∈ strategyIds (deleteAged params tcp) ++ strategyIds (deleteAged params udp)))
        else strategies) := by
      cases orphanStrategies with
      | false => exact (numberGone_self strategies).symm
      | true =>
          simp only [if_true]
          rw [countOrphanStrategies_eq, numberGone_filter]
          simp only [decide_not]
    rw [numberGone_deleteAged, numberGone_deleteAged, ← horphans, pruneDbResults]
    simp [pruneStats]

end Blockchecks.DbPrune
