import Blockchecks.RunLog
import Blockchecks.Runs

namespace Blockchecks.ResumeSkip

open FailPhases RunStore RunLog

variable {db db' : Db} {proto : String} {runId : Nat} {key : String × String} {l : Logged}

/-- The last row of a key settles it: it works, or it failed in a way that is
not probed again for this limit. -/
def Settles (rows : List Logged) (proto : String) (runId limit : Nat) (key : String × String)
    (l : Logged) : Prop :=
  l.columns.isWorking = true ∨ 0 < limit ∧ l.columns.status = .fail ∧
    (isInfraFailPhase l.columns.failPhase l.columns.error = false ∨
      limit ≤ infraFails rows proto runId key)

theorem mem_skipFail_iff {limit : Int} (hlimit : 0 < limit) :
    key ∈ db.getResumeSkipTcpKeys (some runId) proto limit ↔
      key ∈ db.getCompletedTcpKeys (some runId) proto ∨
      ∃ p ∈ db.latestRows proto (inRun runId), Db.keyOf p = key ∧ (p.1.columns.status = .fail ∧
        (isInfraFailPhase p.1.columns.failPhase p.1.columns.error = false ∨
          limit ≤ db.countInfraFailRows key.1 key.2 proto runId)) := by
  rw [Db.getResumeSkipTcpKeys, if_neg (Int.not_le.mpr hlimit)]
  simp only [Finset.mem_union, List.mem_toFinset, List.mem_map, List.mem_filter]
  constructor
  · rintro (hw | ⟨p, ⟨⟨hp, hfail⟩, hcond⟩, rfl⟩)
    · exact Or.inl hw
    · refine Or.inr ⟨p, hp, rfl, of_decide_eq_true hfail, ?_⟩
      split at hcond
      · cases hcond
      · split at hcond
        · exact Or.inr (of_decide_eq_true hcond)
        next hinfra => exact Or.inl (by simpa using hinfra)
  · rintro (hw | ⟨p, hp, rfl, hfail, hcond⟩)
    · exact Or.inl hw
    · by_cases hw : Db.keyOf p ∈ db.getCompletedTcpKeys (some runId) proto
      · exact Or.inl hw
      · refine Or.inr ⟨p, ⟨⟨hp, decide_eq_true hfail⟩, ?_⟩, rfl⟩
        rw [if_neg hw]
        split
        next hinfra =>
          rcases hcond with hno | hcount
          · rw [hno] at hinfra
            cases hinfra
          · exact decide_eq_true hcount
        · rfl

/-- Membership in the skip set is decided by the last row of the key. -/
theorem mem_getResumeSkipTcpKeys (db : Db) (proto : String) (runId limit : Nat)
    (key : String × String) :
    key ∈ db.getResumeSkipTcpKeys (some runId) proto limit ↔
      ∃ l, lastLogged (log db) proto (inRun runId) key = some l ∧
        Settles (log db) proto runId limit key l := by
  by_cases hlimit : 0 < limit
  · rw [mem_skipFail_iff (by omega), mem_getCompletedTcpKeys, countInfraFailRows_eq]
    rw [exists_latestRow_iff (P := fun c => c.status = .fail ∧
      (isInfraFailPhase c.failPhase c.error = false ∨
        (limit : Int) ≤ infraFails (log db) proto runId key))]
    simp only [Settles, Int.ofNat_le, hlimit, true_and]
    constructor
    · rintro (⟨l, hl, hw⟩ | ⟨l, hl, hfail⟩)
      · exact ⟨l, hl, Or.inl hw⟩
      · exact ⟨l, hl, Or.inr hfail⟩
    · rintro ⟨l, hl, hw | hfail⟩
      · exact Or.inl ⟨l, hl, hw⟩
      · exact Or.inr ⟨l, hl, hfail⟩
  · obtain rfl : limit = 0 := by omega
    rw [Db.getResumeSkipTcpKeys, if_pos (by simp), mem_getCompletedTcpKeys]
    simp only [Settles, Nat.lt_irrefl, false_and, or_false]

theorem skip_antitone {limit limit' : Nat} (hpos : 1 ≤ limit) (hle : limit ≤ limit') :
    db.getResumeSkipTcpKeys (some runId) proto limit' ⊆
      db.getResumeSkipTcpKeys (some runId) proto limit := by
  intro key hkey
  obtain ⟨l, hl, hset⟩ := (mem_getResumeSkipTcpKeys db proto runId limit' key).mp hkey
  refine (mem_getResumeSkipTcpKeys db proto runId limit key).mpr ⟨l, hl, ?_⟩
  rcases hset with hw | ⟨_, hfail, hinfra | hcount⟩
  · exact Or.inl hw
  · exact Or.inr ⟨hpos, hfail, Or.inl hinfra⟩
  · exact Or.inr ⟨hpos, hfail, Or.inr (hle.trans hcount)⟩

theorem skipped_not_mem {limit : Nat}
    (hl : lastLogged (log db) proto (inRun runId) key = some l) (hs : l.columns.status = .skipped) :
    key ∉ db.getResumeSkipTcpKeys (some runId) proto limit := by
  intro hkey
  obtain ⟨l', hl', hset⟩ := (mem_getResumeSkipTcpKeys db proto runId limit key).mp hkey
  obtain rfl : l = l' := Option.some.inj (hl.symm.trans hl')
  rcases hset with hw | ⟨_, hfail, _⟩
  · rw [TcpColumns.isWorking_iff, hs] at hw
    cases hw.1
  · rw [hs] at hfail
    cases hfail

def entryKey (entry : TcpEntry) : String × String := (entry.strategy, entry.columns.domain)

def writeAll (db : Db) (runId : Nat) (entries : List TcpEntry) : Db :=
  entries.foldl (fun db entry => db.write runId entry) db

/-- A resumed session may write what it likes under other protocols. Under this
one it writes at most one row for a key and none for a key of the skip set. -/
def Allowed (db : Db) (proto : String) (runId limit : Nat) (entries : List TcpEntry) : Prop :=
  ((entries.filter (fun entry => entry.proto = proto)).map entryKey).Nodup ∧
    ∀ entry ∈ entries, entry.proto = proto →
      entryKey entry ∉ db.getResumeSkipTcpKeys (some runId) proto limit

instance (db : Db) (proto : String) (runId limit : Nat) (entries : List TcpEntry) :
    Decidable (Allowed db proto runId limit entries) :=
  inferInstanceAs (Decidable (_ ∧ _))

def session (proto : String) (runId limit : Nat) (db : Db) (entries : List TcpEntry) : Option Db :=
  if Allowed db proto runId limit entries then some (writeAll db runId entries) else none

def loggedEntry (runId : Nat) (entry : TcpEntry) : Logged :=
  ⟨entry.strategy, entry.proto, some runId, entry.columns⟩

theorem log_writeAll (db : Db) (runId : Nat) (entries : List TcpEntry) :
    log (writeAll db runId entries) = log db ++ entries.map (loggedEntry runId) := by
  induction entries generalizing db with
  | nil => simp [writeAll]
  | cons entry entries ih =>
      have hrest := ih (db.write runId entry)
      rw [log_write, List.append_assoc] at hrest
      exact hrest

theorem infraFails_eq (rows : List Logged) (proto : String) (runId : Nat) (key : String × String) :
    infraFails rows proto runId key =
      (rows.filter (fun l => l.is proto (inRun runId) key)).countP (fun l => l.columns.isInfraFail) := by
  rw [infraFails, List.countP_filter]
  apply List.countP_congr
  intro l _
  rw [Bool.and_comm]

theorem loggedEntry_is {entry : TcpEntry} :
    (loggedEntry runId entry).is proto (inRun runId) key = true ↔
      entry.proto = proto ∧ entryKey entry = key := by
  rw [Logged.is_iff]
  simp only [loggedEntry, inRun, decide_true, true_and, entryKey, Prod.ext_iff]

/-- A session adds nothing to a key, or one row to a key outside the skip set. -/
theorem Allowed.rows {limit : Nat} {entries : List TcpEntry}
    (h : Allowed db proto runId limit entries) (key : String × String) :
    (entries.map (loggedEntry runId)).filter (fun l => l.is proto (inRun runId) key) = [] ∨
      key ∉ db.getResumeSkipTcpKeys (some runId) proto limit ∧
      ∃ l, (entries.map (loggedEntry runId)).filter (fun l => l.is proto (inRun runId) key) = [l] := by
  have hfilter : (entries.map (loggedEntry runId)).filter (fun l => l.is proto (inRun runId) key) =
      ((entries.filter (fun entry => entry.proto = proto)).filter
        (fun entry => entryKey entry = key)).map (loggedEntry runId) := by
    rw [List.filter_map, List.filter_filter]
    congr 1
    apply List.filter_congr
    intro entry _
    rw [Bool.eq_iff_iff, Function.comp_apply, loggedEntry_is, Bool.and_eq_true, decide_eq_true_iff,
      decide_eq_true_iff, and_comm]
  rw [hfilter]
  by_cases hany : ∃ entry ∈ entries.filter (fun entry => entry.proto = proto), entryKey entry = key
  · obtain ⟨entry, hmem, rfl⟩ := hany
    have hentry := List.mem_filter.mp hmem
    refine Or.inr ⟨h.2 entry hentry.1 (of_decide_eq_true hentry.2), loggedEntry runId entry, ?_⟩
    rw [filter_key_eq h.1 hmem]
    rfl
  · refine Or.inl ?_
    rw [List.map_eq_nil_iff, List.filter_eq_nil_iff]
    intro entry hentry hkey
    exact hany ⟨entry, hentry, of_decide_eq_true hkey⟩

/-- How many infrastructure failures a key may have when it had so many before
the sessions: once the limit is used up, the key is skipped. -/
def WithinLimit (proto : String) (runId limit before : Nat) (key : String × String) (db : Db) : Prop :=
  infraFails (log db) proto runId key ≤ before + limit ∧
    (infraFails (log db) proto runId key = before + limit →
      key ∈ db.getResumeSkipTcpKeys (some runId) proto limit)

theorem session_withinLimit {limit before : Nat} (hlimit : 0 < limit) {entries : List TcpEntry}
    (h : WithinLimit proto runId limit before key db)
    (hs : session proto runId limit db entries = some db') :
    WithinLimit proto runId limit before key db' := by
  rw [session] at hs
  split at hs
  next hallowed =>
    obtain rfl := Option.some.inj hs
    have hrows : ((log (writeAll db runId entries)).filter (fun l => l.is proto (inRun runId) key)) =
        (log db).filter (fun l => l.is proto (inRun runId) key) ++
          (entries.map (loggedEntry runId)).filter (fun l => l.is proto (inRun runId) key) := by
      rw [log_writeAll, List.filter_append]
    rcases hallowed.rows key with hnone | ⟨hout, l, hone⟩
    · rw [hnone, List.append_nil] at hrows
      have hcount : infraFails (log (writeAll db runId entries)) proto runId key =
          infraFails (log db) proto runId key := by
        rw [infraFails_eq, hrows, ← infraFails_eq]
      refine ⟨hcount ▸ h.1, fun hfull => ?_⟩
      have hin := h.2 (hcount ▸ hfull)
      rw [mem_getResumeSkipTcpKeys] at hin ⊢
      simpa only [lastLogged, hrows, Settles, hcount] using hin
    · rw [hone] at hrows
      have hcount : infraFails (log (writeAll db runId entries)) proto runId key =
          infraFails (log db) proto runId key + if l.columns.isInfraFail then 1 else 0 := by
        rw [infraFails_eq, hrows, List.countP_append, ← infraFails_eq, List.countP_singleton]
      have hless : infraFails (log db) proto runId key < before + limit := by
        rcases Nat.lt_or_eq_of_le h.1 with hlt | heq
        · exact hlt
        · exact absurd (h.2 heq) hout
      rw [WithinLimit, hcount]
      by_cases hinfra : l.columns.isInfraFail = true
      · rw [if_pos hinfra] at hcount ⊢
        refine ⟨hless, fun hfull => ?_⟩
        rw [mem_getResumeSkipTcpKeys]
        refine ⟨l, by rw [lastLogged, hrows, List.getLast?_concat], Or.inr ⟨hlimit, ?_, Or.inr ?_⟩⟩
        · exact (TcpColumns.isInfraFail_iff.mp hinfra).1
        · rw [hcount, hfull]
          exact Nat.le_add_left limit before
      · rw [if_neg hinfra, Nat.add_zero]
        exact ⟨Nat.le_of_lt hless, fun hfull => absurd hfull (Nat.ne_of_lt hless)⟩
  · cases hs

theorem sessions_withinLimit {limit : Nat} (hlimit : 0 < limit) {sessions : List (List TcpEntry)}
    (h : Runs.run (session proto runId limit) db sessions = some db') (key : String × String) :
    infraFails (log db') proto runId key ≤ infraFails (log db) proto runId key + limit := by
  have hstart : WithinLimit proto runId limit (infraFails (log db) proto runId key) key db := by
    refine ⟨Nat.le_add_right _ _, fun hfull => ?_⟩
    omega
  exact (Runs.run_invariant (fun _ _ _ hp hs => session_withinLimit hlimit hp hs) hstart h).1

/-- The keys that a resumed run skips are those whose last row works, with a
positive limit also those whose last row is a failure that is not one of the
infrastructure or is the last allowed one. A larger limit skips fewer keys, a
key last skipped is probed, and the infrastructure failures that any sessions
add to a key stay within the limit. -/
theorem resume_skip_keys (db : Db) (proto : String) (runId : Nat) :
    (∀ (limit : Nat) key, key ∈ db.getResumeSkipTcpKeys (some runId) proto limit ↔
      ∃ l, lastLogged (log db) proto (inRun runId) key = some l ∧
        (l.columns.isWorking = true ∨ 0 < limit ∧ l.columns.status = .fail ∧
          (isInfraFailPhase l.columns.failPhase l.columns.error = false ∨
            limit ≤ infraFails (log db) proto runId key))) ∧
    (∀ limit limit' : Nat, 1 ≤ limit → limit ≤ limit' →
      db.getResumeSkipTcpKeys (some runId) proto limit' ⊆
        db.getResumeSkipTcpKeys (some runId) proto limit) ∧
    (∀ (limit : Nat) key l, lastLogged (log db) proto (inRun runId) key = some l →
      l.columns.status = .skipped → key ∉ db.getResumeSkipTcpKeys (some runId) proto limit) ∧
    ∀ (limit : Nat) sessions db', 0 < limit →
      Runs.run (session proto runId limit) db sessions = some db' → ∀ key,
      infraFails (log db') proto runId key ≤ infraFails (log db) proto runId key + limit ∧
      ((∀ l ∈ log db, l.is proto (inRun runId) key = false) →
        infraFails (log db') proto runId key ≤ limit) := by
  refine ⟨mem_getResumeSkipTcpKeys db proto runId, fun _ _ => skip_antitone,
    fun _ _ _ => skipped_not_mem, ?_⟩
  intro limit sessions db' hlimit hrun key
  have hadded := sessions_withinLimit hlimit hrun key
  refine ⟨hadded, fun hnew => ?_⟩
  have hzero : infraFails (log db) proto runId key = 0 := by
    rw [infraFails, List.countP_eq_zero]
    intro l hl
    simp [hnew l hl]
  omega

def timedOut : TcpEntry where
  strategy := "std_split_1"
  proto := "tcp"
  configPath := "multisplit:pos=1"
  columns := { domain := "a.example", status := .fail, error := "timeout", failPhase := "connect_timeout" }

/-- Two sessions time out for the same key; with a limit of two it is then skipped. -/
theorem timedOut_twice : ∃ db', Runs.run (session "tcp" 1 2) emptyDb [[timedOut], [timedOut]] = some db' ∧
    entryKey timedOut ∈ db'.getResumeSkipTcpKeys (some 1) "tcp" 2 ∧
    entryKey timedOut ∉ db'.getResumeSkipTcpKeys (some 1) "tcp" 3 ∧
    infraFails (log db') "tcp" 1 (entryKey timedOut) ≤ 2 := by
  have hany : (Runs.run (session "tcp" 1 2) emptyDb [[timedOut], [timedOut]]).any (fun db' =>
      decide (entryKey timedOut ∈ db'.getResumeSkipTcpKeys (some 1) "tcp" 2 ∧
        entryKey timedOut ∉ db'.getResumeSkipTcpKeys (some 1) "tcp" 3)) = true := by
    decide +kernel
  obtain ⟨db', hrun, hskip⟩ := (Option.any_eq_true _ _).mp hany
  obtain ⟨htwo, hthree⟩ := of_decide_eq_true hskip
  have hbound := (resume_skip_keys emptyDb "tcp" 1).2.2.2 2 _ db' (by decide) hrun (entryKey timedOut)
  exact ⟨db', hrun, htwo, hthree, hbound.2 (fun l hl => absurd hl List.not_mem_nil)⟩

end Blockchecks.ResumeSkip
