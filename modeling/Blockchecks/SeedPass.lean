import Blockchecks.Shortlists

namespace Blockchecks.SeedPass

open StrategyText RunStore RunLog StoreViews LatestViews CommonExport ProbeLogger Shortlists

def isKept (row : ShortlistRow) : Bool := decide (strip row.strategy.toList ≠ [])

def seedEntry (kind primary : String) (latency : ShortlistRow → ℚ) (count : Nat) (row : ShortlistRow) : TcpEntry where
  strategy := seedLabel kind count row
  proto := kind
  configPath := String.ofList (strip row.strategy.toList)
  columns :=
    { domain := primary
      status := .pass
      latencyMs := latency row
      httpCode := 200 }

section seeding

variable {kind primary : String} {latency : ShortlistRow → ℚ} {rows : List ShortlistRow} {e : TcpEntry}

theorem seedRow_kept {row : ShortlistRow} (hkept : isKept row = true) (hone : passDomains primary row = [primary])
    (state : Seeded) : seedRow kind primary latency state row =
      ⟨state.rows ++ [seedEntry kind primary latency state.count row], state.udp, state.count + 1⟩ := by
  rw [seedRow, hone]
  exact if_neg (of_decide_eq_true hkept)

theorem seedRow_blank {row : ShortlistRow} (hblank : isKept row = false) (state : Seeded) :
    seedRow kind primary latency state row = state := by
  rw [seedRow]
  exact if_pos (not_not.mp (of_decide_eq_false hblank))

/-- An entry for a row of a list, with the number of the rows before it. -/
def SeededFrom (kind primary : String) (latency : ShortlistRow → ℚ) (count : Nat) (rows : List ShortlistRow)
    (e : TcpEntry) : Prop :=
  ∃ before row after, rows = before ++ row :: after ∧ isKept row = true ∧
    e = seedEntry kind primary latency (count + before.countP isKept) row

theorem not_seededFrom_nil (count : Nat) : ¬ SeededFrom kind primary latency count [] e := by
  rintro ⟨before, row, after, hsplit, -⟩
  exact absurd hsplit (by simp)

theorem seededFrom_cons {row : ShortlistRow} {count : Nat} :
    SeededFrom kind primary latency count (row :: rows) e ↔
      (isKept row = true ∧ e = seedEntry kind primary latency count row) ∨
        SeededFrom kind primary latency (count + if isKept row then 1 else 0) rows e := by
  constructor
  · rintro ⟨before, kept, after, heq, hkept, rfl⟩
    cases before with
    | nil =>
        obtain ⟨rfl, rfl⟩ := List.cons.inj heq
        exact Or.inl ⟨hkept, rfl⟩
    | cons first before =>
        obtain ⟨rfl, rfl⟩ := List.cons.inj heq
        refine Or.inr ⟨before, kept, after, rfl, hkept, ?_⟩
        rw [List.countP_cons, Nat.add_assoc, Nat.add_comm (List.countP isKept before)]
  · rintro (⟨hkept, rfl⟩ | ⟨before, kept, after, rfl, hkept, rfl⟩)
    · exact ⟨[], row, rows, rfl, hkept, rfl⟩
    · refine ⟨row :: before, kept, after, rfl, hkept, ?_⟩
      rw [List.countP_cons, Nat.add_assoc, Nat.add_comm (List.countP isKept before)]

/-- Rows for the one domain are counted, and numbered by the rows before them. -/
theorem seedRow_foldl (hone : ∀ row ∈ rows, passDomains primary row = [primary]) (state : Seeded) :
    (rows.foldl (seedRow kind primary latency) state).count = state.count + rows.countP isKept ∧
      ∀ e, e ∈ (rows.foldl (seedRow kind primary latency) state).rows ↔
        e ∈ state.rows ∨ SeededFrom kind primary latency state.count rows e := by
  induction rows generalizing state with
  | nil =>
      exact ⟨rfl, fun e => (or_iff_left (not_seededFrom_nil state.count)).symm⟩
  | cons row rows ih =>
      obtain ⟨hrow, htail⟩ := List.forall_mem_cons.mp hone
      rw [List.foldl_cons, List.countP_cons]
      simp only [seededFrom_cons]
      cases hkept : isKept row with
      | true =>
          rw [seedRow_kept hkept hrow]
          obtain ⟨hcount, hmem⟩ := ih htail
            ⟨state.rows ++ [seedEntry kind primary latency state.count row], state.udp, state.count + 1⟩
          refine ⟨hcount.trans (Nat.add_right_comm state.count 1 _), fun e => (hmem e).trans ?_⟩
          rw [List.mem_append, List.mem_singleton, or_assoc, and_iff_right rfl, if_pos rfl]
      | false =>
          rw [seedRow_blank hkept]
          obtain ⟨hcount, hmem⟩ := ih htail state
          refine ⟨hcount, fun e => (hmem e).trans (or_congr_right ?_)⟩
          rw [or_iff_right (fun h => Bool.false_ne_true h.1), if_neg Bool.false_ne_true, Nat.add_zero]

theorem seedUdp_foldl (rows : List ShortlistRow) (state : Seeded) :
    (rows.foldl seedUdp state).rows = state.rows ∧
      (rows.foldl seedUdp state).count = state.count + rows.countP isKept := by
  induction rows generalizing state with
  | nil => exact ⟨rfl, rfl⟩
  | cons row rows ih =>
      obtain ⟨hrows, hcount⟩ := ih (seedUdp state row)
      rw [List.foldl_cons, hrows, hcount, seedUdp]
      by_cases hblank : strip row.strategy.toList = []
      · have hkept : ¬ isKept row = true := fun h => of_decide_eq_true h hblank
        rw [if_pos hblank, List.countP_cons_of_neg hkept]
        exact ⟨rfl, rfl⟩
      · have hkept : isKept row = true := decide_eq_true hblank
        rw [if_neg hblank, List.countP_cons_of_pos hkept]
        exact ⟨rfl, Nat.add_right_comm state.count 1 _⟩

end seeding

section ranked

variable {db : Db} {proto domain : String} {limit : Int}

theorem mem_getWorkingProto {name : String} : name ∈ db.getWorkingProto domain proto ↔
    ∃ p ∈ (db.latestRows proto anyRun).filter
      (fun p => p.1.columns.domain = domain ∧ p.1.columns.isWorking = true), p.2.name = name := by
  simp only [Db.getWorkingProto, Db.getWorkingProtoDetails, List.map_map, List.mem_map, Function.comp_apply]

theorem getWorkingProto_eq_nil_iff : db.getWorkingProto domain proto = [] ↔ (db.latestRows proto anyRun).filter
    (fun p => p.1.columns.domain = domain ∧ p.1.columns.isWorking = true) = [] := by
  rw [Db.getWorkingProto, Db.getWorkingProtoDetails, List.map_eq_nil_iff, List.map_eq_nil_iff]

theorem best_working {row : Db.BestRow} (h : row ∈ getBest db proto domain limit) :
    row.strategy ∈ db.getWorkingProto domain proto := by
  rw [getBest, Db.getBest] at h
  obtain ⟨p, hp, rfl⟩ := List.mem_map.mp h
  exact mem_getWorkingProto.mpr ⟨p, (List.mergeSort_perm _ _).mem_iff.mp (List.mem_of_mem_take hp), rfl⟩

theorem sqlLimit_pos (hlimit : limit ≠ 0) {n : Nat} (h : sqlLimit limit = some n) : n ≠ 0 := by
  rw [sqlLimit] at h
  split at h
  · cases h
  · rw [← Option.some.inj h]
    omega

theorem take_eq_nil {α : Type} {n : Nat} {rows : List α} (hn : n ≠ 0) (h : rows.take n = []) : rows = [] :=
  (List.take_eq_nil_iff.mp h).resolve_left hn

/-- A ranking is empty if its limit is zero or nothing works. -/
theorem best_eq_nil (hlimit : limit ≠ 0) (h : getBest db proto domain limit = []) :
    db.getWorkingProto domain proto = [] := by
  rw [getBest, Db.getBest, List.map_eq_nil_iff] at h
  rw [getWorkingProto_eq_nil_iff]
  have hsorted {rows : List (TcpRow × Strategy)} {le : TcpRow × Strategy → TcpRow × Strategy → Bool}
      (hnil : rows.mergeSort le = []) : rows = [] := by
    have hperm := List.mergeSort_perm rows le
    rw [hnil] at hperm
    exact hperm.symm.eq_nil
  cases hsql : sqlLimit limit with
  | some n =>
      rw [hsql] at h
      exact hsorted (take_eq_nil (sqlLimit_pos hlimit hsql) h)
  | none =>
      rw [hsql] at h
      by_cases htcp : db.tcp.length = 0
      · have hjoined : db.joined = [] := by
          rw [Db.joined, List.length_eq_zero_iff.mp htcp]
          rfl
        rw [Db.latestRows, hjoined]
        rfl
      · exact hsorted (take_eq_nil htcp h)

theorem coverage_eq_nil (hlimit : limit ≠ 0) (h : getBestByCoverage db (sqlLimit limit) = []) :
    workingRows db = [] := by
  have hall : getBestByCoverage db none = [] := by
    cases hsql : sqlLimit limit with
    | none => rwa [hsql] at h
    | some n =>
        rw [hsql, getBestByCoverage, limited] at h
        exact take_eq_nil (sqlLimit_pos hlimit hsql) h
  have hgroups := best_perm db
  rw [hall] at hgroups
  have hnames := List.map_eq_nil_iff.mp hgroups.symm.eq_nil
  rw [← List.map_eq_nil_iff (f := fun p : TcpRow × Strategy => p.2.name)]
  exact List.eq_nil_iff_forall_not_mem.mpr (fun name hname => by
    have hmem := List.mem_dedup.mpr hname
    rw [hnames] at hmem
    cases hmem)

end ranked

section payload

variable {confText : List Char → Option (List Char)} {source : SourceDb} {domains : List String} {limit : Int}
  {includeCommon : Bool} {domain : String}

theorem tcpRows_eq_nil (h : tcpRows source domain limit = []) :
    getBest source.db "tcp" domain limit = [] ∧ getBestByCoverage source.db (sqlLimit limit) = [] := by
  rw [tcpRows] at h
  split at h
  next hne => exact absurd h hne
  next hbest => exact ⟨List.map_eq_nil_iff.mp (not_not.mp hbest), List.map_eq_nil_iff.mp h⟩

/-- With no ranking to export the fallback selects nothing either. -/
theorem collectTcp_eq_nil (h : tcpRows source domain limit = []) (commonOnly : Bool) :
    collectTcp confText source domain limit domains commonOnly = [] := by
  obtain ⟨hbest, hcoverage⟩ := tcpRows_eq_nil h
  have hcommon : getCommonTcp source.db domains (sqlLimit limit) = [] := by
    rw [getCommonTcp]
    split
    · rfl
    · by_cases hlimit : limit = 0
      · rw [hlimit]
        rfl
      · have hrows : (source.db.latestRows "tcp" anyRun).filter
            (fun p => p.1.columns.domain ∈ domains ∧ p.1.columns.isWorking = true) = [] := by
          have hworking := coverage_eq_nil hlimit hcoverage
          rw [workingRows] at hworking
          refine List.filter_eq_nil_iff.mpr (fun p hp hkept => ?_)
          exact List.filter_eq_nil_iff.mp hworking p hp (of_decide_eq_true hkept).2
        have hgroups : groupByName [] = [] := rfl
        simp only [hrows, hgroups, List.filter_nil, List.mergeSort_nil]
        cases sqlLimit limit with
        | none => rfl
        | some n => exact List.take_nil
  have hslice : sliceTo limit (source.db.getWorkingTcp domain) = [] := by
    by_cases hlimit : limit = 0
    · rw [hlimit]
      rfl
    · rw [Db.getWorkingTcp, best_eq_nil hlimit hbest, sliceTo]
      split <;> exact List.take_nil
  rw [collectTcp, hcommon, hcoverage, hbest, hslice]
  split <;> rfl

theorem collectQuic_eq_nil (h : quicRows source domain limit = []) : collectQuic confText source domain limit = [] := by
  rw [collectQuic, List.map_eq_nil_iff.mp h]
  rfl

theorem payload_tcp : (buildShortlistEntries source confText domains limit includeCommon).tcp =
    tcpRows source (primaryOf domains) limit := by
  rw [buildShortlistEntries]
  split
  next hnone =>
    rw [hnone.1]
    exact congrArg (fallbackRows (some [])) (collectTcp_eq_nil hnone.1 _)
  next => rfl

theorem payload_quic : (buildShortlistEntries source confText domains limit includeCommon).quic =
    quicRows source (primaryOf domains) limit := by
  rw [buildShortlistEntries]
  split
  next hnone =>
    rw [hnone.2.2]
    exact congrArg (fallbackRows (some [])) (collectQuic_eq_nil hnone.2.2)
  next => rfl

theorem payload_udp (h : quicRows source (primaryOf domains) limit ≠ []) :
    (buildShortlistEntries source confText domains limit includeCommon).udp = udpRows source limit := by
  rw [buildShortlistEntries, if_neg (fun hnone => h hnone.2.2)]

theorem payload_domains : (buildShortlistEntries source confText domains limit includeCommon).domains = domains := by
  rw [buildShortlistEntries]
  split <;> rfl

theorem tcpRows_one {row : ShortlistRow} (h : row ∈ tcpRows source domain limit) : passDomains domain row = [domain] := by
  rw [tcpRows] at h
  split at h
  · obtain ⟨best, -, rfl⟩ := List.mem_map.mp h
    rfl
  · obtain ⟨covered, -, rfl⟩ := List.mem_map.mp h
    rfl

theorem quicRows_one {row : ShortlistRow} (h : row ∈ quicRows source domain limit) :
    passDomains domain row = [domain] := by
  obtain ⟨best, -, rfl⟩ := List.mem_map.mp h
  rfl

end payload

section run

variable (confText : List Char → Option (List Char)) (source : SourceDb) (domains : List String) (limit : Int)
  (includeCommon : Bool)

/-- How many rows are seeded before the QUIC rows. -/
def quicStart : Nat :=
  (tcpRows source (primaryOf domains) limit).countP isKept + (udpRows source limit).countP isKept

/-- The entries of the two sections of a payload. -/
theorem mem_seeded (e : TcpEntry) :
    e ∈ (seeded (buildShortlistEntries source confText domains limit includeCommon)).rows ↔
      SeededFrom "tcp" (primaryOf domains) (fun row => firstLatency [row.avgLatencyMs, row.latencyMs]) 0
          (tcpRows source (primaryOf domains) limit) e ∨
        SeededFrom "quic" (primaryOf domains) (fun row => firstLatency [row.latencyMs])
          (quicStart source domains limit) (quicRows source (primaryOf domains) limit) e := by
  obtain ⟨htcpCount, htcpMem⟩ := @seedRow_foldl "tcp" (primaryOf domains)
    (fun row => firstLatency [row.avgLatencyMs, row.latencyMs])
    (tcpRows source (primaryOf domains) limit) (fun _ h => tcpRows_one h) ⟨[], [], 0⟩
  obtain ⟨hudpRows, hudpCount⟩ := seedUdp_foldl (buildShortlistEntries source confText domains limit includeCommon).udp
    ((tcpRows source (primaryOf domains) limit).foldl (seedTcp (primaryOf domains)) ⟨[], [], 0⟩)
  obtain ⟨-, hquicMem⟩ := @seedRow_foldl "quic" (primaryOf domains) (fun row => firstLatency [row.latencyMs])
    (quicRows source (primaryOf domains) limit) (fun _ h => quicRows_one h)
    ((buildShortlistEntries source confText domains limit includeCommon).udp.foldl seedUdp
      ((tcpRows source (primaryOf domains) limit).foldl (seedTcp (primaryOf domains)) ⟨[], [], 0⟩))
  rw [hudpRows, hudpCount] at hquicMem
  have htcp := (htcpMem e).trans (or_iff_right List.not_mem_nil)
  rw [seeded, payload_domains, payload_tcp, payload_quic]
  refine (hquicMem e).trans (or_congr htcp ?_)
  by_cases hquic : quicRows source (primaryOf domains) limit = []
  · rw [hquic]
    exact iff_of_false (not_seededFrom_nil _) (not_seededFrom_nil _)
  · rw [payload_udp hquic, quicStart]
    have hstart : ((tcpRows source (primaryOf domains) limit).foldl (seedTcp (primaryOf domains)) ⟨[], [], 0⟩).count =
        (tcpRows source (primaryOf domains) limit).countP isKept := htcpCount.trans (Nat.zero_add _)
    rw [hstart]

end run

/-- What a run adds to the log of a database. -/
def written (target target' : Db) : List Logged := (log target').drop (log target).length

/-- Every PASS among the rows is of a strategy that works on the domain in the source. -/
def InventsNoPass (source : SourceDb) (rows : List Logged) : Prop :=
  ∀ l ∈ rows, l.columns.status = .pass → l.name ∈ source.db.getWorkingProto l.columns.domain l.proto

theorem written_foldl (runId : Nat) (target : Db) (entries : List TcpEntry) :
    written target (entries.foldl (fun db entry => db.write runId entry) target) =
      entries.map (fun e => ⟨e.strategy, e.proto, some runId, e.columns⟩) := by
  have hlog (target : Db) : log (entries.foldl (fun db entry => db.write runId entry) target) =
      log target ++ entries.map (fun e => ⟨e.strategy, e.proto, some runId, e.columns⟩) := by
    induction entries generalizing target with
    | nil => exact (List.append_nil _).symm
    | cons e entries ih => rw [List.foldl_cons, ih, log_write, List.append_assoc, List.map_cons, List.singleton_append]
  rw [written, hlog, List.drop_left]

section working

variable (source : SourceDb) (domains : List String) (limit : Int)

/-- A nameless strategy of a list is seeded under the label that its place gives it.
That label works. -/
def NamesWork (kind : String) (count : Nat) (rows : List ShortlistRow) : Prop :=
  ∀ before row after, rows = before ++ row :: after → isKept row = true → row.label = "" →
    "import_" ++ kind ++ "_" ++ toString (count + before.countP isKept) ∈
      source.db.getWorkingProto (primaryOf domains) kind

/-- The first domain has a working strategy, or the ranking by coverage has no text. -/
structure SeedsWorking : Prop where
  covered : (∃ name, name ∈ source.db.getWorkingTcp (primaryOf domains)) ∨
    ∀ row ∈ coverageRows source limit, isKept row = false
  tcpNames : NamesWork source domains "tcp" 0 (bestTcpRows source (primaryOf domains) limit)
  quicNames : NamesWork source domains "quic" (quicStart source domains limit)
    (quicRows source (primaryOf domains) limit)

variable {source domains limit} {kind : String} {count : Nat} {rows : List ShortlistRow}

theorem seedLabel_named {row : ShortlistRow} (h : row.label ≠ "") (count : Nat) : seedLabel kind count row = row.label :=
  if_neg h

/-- A list of working strategies is seeded as it is, up to its nameless ones. -/
theorem labels_work_iff (hrows : ∀ row ∈ rows, row.label ∈ source.db.getWorkingProto (primaryOf domains) kind) :
    (∀ before row after, rows = before ++ row :: after → isKept row = true →
        seedLabel kind (count + before.countP isKept) row ∈ source.db.getWorkingProto (primaryOf domains) kind) ↔
      NamesWork source domains kind count rows := by
  constructor
  · intro hall before row after hsplit hkept hname
    have hlabel := hall before row after hsplit hkept
    rwa [seedLabel, orElse, if_pos hname] at hlabel
  · intro hnames before row after hsplit hkept
    by_cases hname : row.label = ""
    · have hlabel := hnames before row after hsplit hkept hname
      rwa [seedLabel, orElse, if_pos hname]
    · rw [seedLabel_named hname]
      refine hrows row ?_
      rw [hsplit]
      exact List.mem_append_right _ List.mem_cons_self

theorem bestTcpRows_work {row : ShortlistRow} {domain : String} (h : row ∈ bestTcpRows source domain limit) :
    row.label ∈ source.db.getWorkingProto domain "tcp" := by
  obtain ⟨best, hbest, rfl⟩ := List.mem_map.mp h
  exact best_working hbest

theorem quicRows_work {row : ShortlistRow} {domain : String} (h : row ∈ quicRows source domain limit) :
    row.label ∈ source.db.getWorkingProto domain "quic" := by
  obtain ⟨best, hbest, rfl⟩ := List.mem_map.mp h
  exact best_working hbest

/-- The TCP section of a payload is seeded with working labels exactly if a strategy
works on the first domain, or no text is ranked by coverage. -/
theorem tcp_labels_work_iff :
    (∀ before row after, tcpRows source (primaryOf domains) limit = before ++ row :: after → isKept row = true →
        seedLabel "tcp" (0 + before.countP isKept) row ∈ source.db.getWorkingProto (primaryOf domains) "tcp") ↔
      ((∃ name, name ∈ source.db.getWorkingTcp (primaryOf domains)) ∨
          ∀ row ∈ coverageRows source limit, isKept row = false) ∧
        NamesWork source domains "tcp" 0 (bestTcpRows source (primaryOf domains) limit) := by
  rw [tcpRows]
  split
  next hbest =>
    rw [labels_work_iff (fun row h => bestTcpRows_work h)]
    obtain ⟨row, rows, hrows⟩ := List.exists_cons_of_ne_nil hbest
    have hworks := bestTcpRows_work (hrows ▸ List.mem_cons_self : row ∈ bestTcpRows source (primaryOf domains) limit)
    exact (and_iff_right (Or.inl ⟨row.label, hworks⟩)).symm
  next hbest =>
    have hempty := not_not.mp hbest
    have hnames : NamesWork source domains "tcp" 0 (bestTcpRows source (primaryOf domains) limit) := by
      intro before row after hsplit
      rw [hempty] at hsplit
      exact absurd hsplit (by simp)
    rw [and_iff_left hnames]
    by_cases hlimit : limit = 0
    · have hcoverage : coverageRows source limit = [] := by
        rw [hlimit]
        rfl
      rw [hcoverage]
      refine iff_of_true (fun before row after hsplit => ?_) (Or.inr (fun _ h => absurd h List.not_mem_nil))
      exact absurd hsplit (by simp)
    · have hnone := best_eq_nil hlimit (List.map_eq_nil_iff.mp hempty)
      rw [Db.getWorkingTcp, hnone]
      constructor
      · refine fun hall => Or.inr (fun row hrow => Bool.eq_false_iff.mpr (fun hkept => ?_))
        obtain ⟨before, after, hsplit⟩ := List.append_of_mem hrow
        exact absurd (hall before row after hsplit hkept) List.not_mem_nil
      · rintro (⟨name, hname⟩ | hblank) before row after hsplit hkept
        · exact absurd hname List.not_mem_nil
        · have hrow : row ∈ coverageRows source limit := by
            rw [hsplit]
            exact List.mem_append_right _ List.mem_cons_self
          rw [hblank row hrow] at hkept
          cases hkept

end working

/-- Seeding invents no PASS exactly if the first domain has a working strategy, or the
ranking by coverage no text, and the labels of nameless strategies work. -/
theorem seed_invents_nothing_iff (confText : List Char → Option (List Char)) (source : SourceDb) (target : Db)
    (runId : Nat) (domains : List String) (limit : Int) (includeCommon : Bool) :
    InventsNoPass source (written target (seedStateDb runId target
        (buildShortlistEntries source confText domains limit includeCommon) true).1) ↔
      SeedsWorking source domains limit := by
  have hrows : InventsNoPass source (written target (seedStateDb runId target
      (buildShortlistEntries source confText domains limit includeCommon) true).1) ↔
      ∀ e, e ∈ (seeded (buildShortlistEntries source confText domains limit includeCommon)).rows →
        e.columns.status = .pass → e.strategy ∈ source.db.getWorkingProto e.columns.domain e.proto := by
    rw [seedStateDb, Bool.not_true, if_neg Bool.false_ne_true, written_foldl, InventsNoPass, List.forall_mem_map]
  have hsection (kind : String) (latency : ShortlistRow → ℚ) (count : Nat) (rows : List ShortlistRow) :
      (∀ e, SeededFrom kind (primaryOf domains) latency count rows e →
          e.columns.status = .pass → e.strategy ∈ source.db.getWorkingProto e.columns.domain e.proto) ↔
        ∀ before row after, rows = before ++ row :: after → isKept row = true →
          seedLabel kind (count + before.countP isKept) row ∈ source.db.getWorkingProto (primaryOf domains) kind := by
    constructor
    · intro hall before row after hsplit hkept
      exact hall _ ⟨before, row, after, hsplit, hkept, rfl⟩ rfl
    · rintro hall e ⟨before, row, after, hsplit, hkept, rfl⟩ -
      exact hall before row after hsplit hkept
  rw [hrows]
  simp only [mem_seeded, or_imp, forall_and, hsection]
  rw [tcp_labels_work_iff, labels_work_iff (fun row h => quicRows_work h)]
  constructor
  · rintro ⟨⟨hcovered, htcp⟩, hquic⟩
    exact ⟨hcovered, htcp, hquic⟩
  · rintro ⟨hcovered, htcp, hquic⟩
    exact ⟨⟨hcovered, htcp⟩, hquic⟩

def worksOnSecond : SourceDb := ⟨emptyDb.write 1 (worksOn "b.com"), [], []⟩

theorem first_domain_invented : ¬ InventsNoPass worksOnSecond (written emptyDb (seedStateDb 1 emptyDb
    (buildShortlistEntries worksOnSecond (fun _ => none) ["a.com", "b.com"] 10 false) true).1) := by
  rw [InventsNoPass]
  decide +kernel

end Blockchecks.SeedPass
