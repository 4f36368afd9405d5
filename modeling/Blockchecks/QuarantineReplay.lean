import Blockchecks.QuarantineRuns
import Blockchecks.ProbeLogger
import Blockchecks.RunLog

namespace Blockchecks.QuarantineReplay

open FailPhases OrderedDict StrategyText Results BatchService Quarantine DomainQuarantine QuarantineRuns
  RunStore RunLog ProbeLogger

/-- One probe of a campaign with what its row is logged from. -/
structure Probe where
  runId : Nat
  item : StrategyItem
  domain : String
  result : TcpTestResult
  backend : Backend
  dns : DnsMeta

def Probe.entry (p : Probe) : TcpEntry := logTcpCampaign p.item p.domain p.result p.backend p.dns

def Probe.columns (p : Probe) : TcpColumns := p.entry.columns

def store (probes : List Probe) : Db :=
  probes.foldl (fun db p => db.write p.runId p.entry) emptyDb

/-- The quarantine of a resumed session, from the two bulk queries. -/
def seeded (config : QuarantineConfig) (db : Db) : DomainQuarantine :=
  (((fresh config).seedFromRows db.domainPassRows).2.seedDnsResolveFromRows
    db.domainDnsResolveFailRows).2

def recordProbe (q : DomainQuarantine) (p : Probe) : DomainQuarantine :=
  (q.record p.domain p.result.campaignPass none p.result.failPhase p.result.error).2

def recorded (config : QuarantineConfig) (probes : List Probe) : DomainQuarantine :=
  probes.foldl recordProbe (fresh config)

/-- The counter that a failed probe raises, if any. -/
def Probe.counted (p : Probe) : Option Counter :=
  if p.result.failPhase = FailPhase.dnsResolve.value then some .dnsResolve
  else if isInfraFailPhase p.result.failPhase p.result.error then none
  else some .attempts

def probesOf (d : String) (probes : List Probe) : List Probe := probes.filter (fun p => p.domain = d)

def beforePass (d : String) (probes : List Probe) : List Probe :=
  (probesOf d probes).takeWhile (fun p => !p.result.campaignPass)

/-- The failures of a domain before its first pass that count against it. -/
def failures (counter : Counter) (d : String) (probes : List Probe) : Nat :=
  (beforePass d probes).countP (fun p => p.counted = some counter)

variable {q : DomainQuarantine} {d : String} {p : Probe} {probes : List Probe}

theorem recordProbe_eq (he : q.config.enabled = true) (h : p.domain ∉ q.excludeDomains) :
    recordProbe q p =
      if p.result.campaignPass then q.recordPass p.domain
      else match p.counted with
        | some counter => (q.recordFail counter p.domain).2
        | none => q := by
  rw [recordProbe, record, if_neg (by simp [he, h])]
  simp only [countsPass, Probe.counted]
  by_cases hp : p.result.campaignPass = true
  · simp only [hp, if_true]
  · by_cases hdns : p.result.failPhase = FailPhase.dnsResolve.value
    · simp [hp, hdns]
    · by_cases hinfra : isInfraFailPhase p.result.failPhase p.result.error = true <;>
        simp [hp, hdns, hinfra]

theorem recordProbe_config (q : DomainQuarantine) (p : Probe) : (recordProbe q p).config = q.config :=
  record_config ..

theorem recordProbe_keeps (h : d ∈ q.excludeDomains) (p : Probe) :
    d ∈ (recordProbe q p).excludeDomains := by
  rw [recordProbe]
  rcases record_cases q p.domain p.result.campaignPass none p.result.failPhase p.result.error with
    he | he | ⟨_, he⟩
  · rw [he]
    exact h
  · rw [he]
    exact h
  · rw [he, recordFail, mem_weigh]
    exact Or.inl h

theorem recordProbes_keep (h : d ∈ q.excludeDomains) (probes : List Probe) :
    d ∈ (probes.foldl recordProbe q).excludeDomains := by
  induction probes generalizing q with
  | nil => exact h
  | cons p probes ih => exact ih (recordProbe_keeps h p)

theorem statsOf_set_of_ne {domain : String} {st : DomainStats} {stats : Dict String DomainStats}
    (hne : d ≠ domain) : ((stats.set domain st).get? d).getD {} = (stats.get? d).getD {} := by
  rw [Dict.get?_set, if_neg hne]

/-- A probe of another domain changes nothing about this one. -/
theorem recordProbe_other (hne : d ≠ p.domain) :
    (d ∈ (recordProbe q p).excludeDomains ↔ d ∈ q.excludeDomains) ∧
      (recordProbe q p).statsOf d = q.statsOf d := by
  rw [recordProbe]
  rcases record_cases q p.domain p.result.campaignPass none p.result.failPhase p.result.error with
    he | he | ⟨_, he⟩
  · rw [he]
    exact ⟨Iff.rfl, rfl⟩
  · rw [he]
    exact ⟨Iff.rfl, statsOf_set_of_ne hne⟩
  · rw [he, recordFail]
    refine ⟨?_, ?_⟩
    · rw [mem_weigh]
      simp [hne]
    · rw [statsOf, weigh_stats]
      exact statsOf_set_of_ne hne

/-- A failure that counts raises its counter by one and quarantines the domain
when that counter is then due. -/
theorem recordProbe_counted {c : Counter} (he : q.config.enabled = true) (hd : p.domain ∉ q.excludeDomains)
    (hp : p.result.campaignPass = false) (hc : p.counted = some c) :
    (recordProbe q p).statsOf p.domain =
        c.setCount (q.statsOf p.domain) (c.count (q.statsOf p.domain) + 1) ∧
      (p.domain ∈ (recordProbe q p).excludeDomains ↔
        c.threshold q.config ≤ c.count (q.statsOf p.domain) + 1 ∧ (q.statsOf p.domain).passed = 0) := by
  have hrec : recordProbe q p = (q.recordFail c p.domain).2 := by
    rw [recordProbe_eq he hd, if_neg (by simp [hp]), hc]
  rw [hrec, recordFail]
  refine ⟨?_, ?_⟩
  · rw [statsOf, weigh_stats, Dict.get?_set, if_pos rfl]
    rfl
  · rw [mem_weigh]
    simp [hd, Due]

theorem failures_cons_other (counter : Counter) (hne : p.domain ≠ d) :
    failures counter d (p :: probes) = failures counter d probes := by
  simp [failures, beforePass, probesOf, hne]

theorem failures_cons_pass (counter : Counter) (hp : p.result.campaignPass = true) :
    failures counter p.domain (p :: probes) = 0 := by
  simp [failures, beforePass, probesOf, hp]

theorem failures_cons_fail (counter : Counter) (hp : p.result.campaignPass = false) :
    failures counter p.domain (p :: probes) =
      failures counter p.domain probes + if p.counted = some counter then 1 else 0 := by
  simp [failures, beforePass, probesOf, hp, List.countP_cons]

/-- Recording quarantines a domain exactly when it has not passed yet and one of
its counters reaches its threshold by the failures before its first pass. -/
theorem recordProbes_mem_iff (he : q.config.enabled = true) (hd : d ∉ q.excludeDomains) :
    d ∈ (probes.foldl recordProbe q).excludeDomains ↔ (q.statsOf d).passed = 0 ∧
      ∃ counter : Counter, 1 ≤ failures counter d probes ∧
        counter.threshold q.config ≤ counter.count (q.statsOf d) + failures counter d probes := by
  induction probes generalizing q with
  | nil => simp [hd, failures, beforePass, probesOf]
  | cons p probes ih =>
      have hconfig := recordProbe_config q p
      rw [List.foldl_cons]
      by_cases hne : p.domain = d
      · subst hne
        cases hp : p.result.campaignPass with
        | true =>
            have hrec : recordProbe q p = q.recordPass p.domain := by
              rw [recordProbe_eq he hd, if_pos hp]
            have hpassed : ((q.recordPass p.domain).statsOf p.domain).passed ≠ 0 := by
              simp [statsOf, recordPass, Dict.get?_set]
            rw [hrec, ih (q := q.recordPass p.domain) he hd]
            refine iff_of_false (fun h => hpassed h.1) ?_
            rintro ⟨_, counter, hone, _⟩
            rw [failures_cons_pass counter hp] at hone
            omega
        | false =>
            cases hc : p.counted with
            | none =>
                have hrec : recordProbe q p = q := by
                  rw [recordProbe_eq he hd, if_neg (by simp [hp]), hc]
                rw [hrec, ih he hd]
                simp [failures_cons_fail _ hp, hc]
            | some c =>
                obtain ⟨hst, hmem⟩ := recordProbe_counted he hd hp hc
                by_cases hin : p.domain ∈ (recordProbe q p).excludeDomains
                · obtain ⟨hthreshold, hzero⟩ := hmem.mp hin
                  refine iff_of_true (recordProbes_keep hin probes) ⟨hzero, c, ?_, ?_⟩ <;>
                    rw [failures_cons_fail c hp, if_pos hc] <;> omega
                · rw [ih (hconfig ▸ he) hin, hst, hconfig, setCount_passed]
                  refine and_congr_right (fun hzero => exists_congr (fun c' => ?_))
                  rw [failures_cons_fail c' hp]
                  by_cases hcc : c' = c
                  · subst hcc
                    rw [count_setCount, if_pos hc]
                    have hbelow : ¬ c'.threshold q.config ≤ c'.count (q.statsOf p.domain) + 1 :=
                      fun hle => hin (hmem.mpr ⟨hle, hzero⟩)
                    omega
                  · rw [count_setCount_of_ne hcc, if_neg (by simp [hc, Ne.symm hcc]), Nat.add_zero]
      · obtain ⟨hmem, hst⟩ := recordProbe_other (q := q) (Ne.symm hne)
        rw [ih (hconfig ▸ he) (fun h => hd (hmem.mp h)), hst, hconfig]
        simp [failures_cons_other _ hne]

variable {counter : Counter} {rows : List Row} {row : Row} {config : QuarantineConfig} {db : Db}

def seededStats (counter : Counter) (st : DomainStats) (row : Row) : DomainStats :=
  { counter.setCount st (max (counter.count st) row.2.1.toNat) with
    passed := max st.passed row.2.2.toNat }

theorem seedRow_eq (q : DomainQuarantine) (counter : Counter) (row : Row) :
    q.seedRow counter row = q.weigh counter row.1 (seededStats counter (q.statsOf row.1) row) := by
  rw [seedRow, seededStats]
  simp only [setCount_passed]

theorem seedLoop_cons_state (q : DomainQuarantine) (counter : Counter) (row : Row) (rows : List Row) :
    (seedLoop counter q (row :: rows)).2 = (seedLoop counter (q.seedRow counter row).2 rows).2 := rfl

theorem seedLoop_mem_of_not_mem (h : d ∉ rows.map Prod.fst) :
    d ∈ (seedLoop counter q rows).2.excludeDomains ↔ d ∈ q.excludeDomains := by
  induction rows generalizing q with
  | nil => rfl
  | cons row rows ih =>
      rw [List.map_cons, List.mem_cons, not_or] at h
      rw [seedLoop_cons_state, ih h.2, seedRow_eq, mem_weigh]
      simp [h.1]

/-- A seed that names each domain once leaves the counters of its row, and
quarantines the domain when they are due. -/
theorem seedLoop_row (hnodup : (rows.map Prod.fst).Nodup) (hrow : row ∈ rows) :
    (seedLoop counter q rows).2.statsOf row.1 = seededStats counter (q.statsOf row.1) row ∧
      (row.1 ∈ (seedLoop counter q rows).2.excludeDomains ↔
        row.1 ∈ q.excludeDomains ∨ Due q.config counter (seededStats counter (q.statsOf row.1) row)) := by
  induction rows generalizing q with
  | nil => exact absurd hrow List.not_mem_nil
  | cons head rows ih =>
      rw [List.map_cons, List.nodup_cons] at hnodup
      rw [seedLoop_cons_state]
      rcases List.mem_cons.mp hrow with rfl | htail
      · constructor
        · rw [statsOf, seedLoop_get?_of_not_mem hnodup.1, seedRow_eq, weigh_stats, Dict.get?_set, if_pos rfl]
          rfl
        · rw [seedLoop_mem_of_not_mem hnodup.1, seedRow_eq, mem_weigh]
          simp
      · have hne : row.1 ≠ head.1 := by
          intro he
          exact hnodup.1 (he ▸ List.mem_map_of_mem htail)
        have hst : (q.seedRow counter head).2.statsOf row.1 = q.statsOf row.1 := by
          rw [seedRow_eq, statsOf, weigh_stats]
          exact statsOf_set_of_ne hne
        have hmem : row.1 ∈ (q.seedRow counter head).2.excludeDomains ↔ row.1 ∈ q.excludeDomains := by
          rw [seedRow_eq, mem_weigh]
          simp [hne]
        have hconfig : (q.seedRow counter head).2.config = q.config := weigh_config ..
        have htail := ih (q := (q.seedRow counter head).2) hnodup.2 htail
        rwa [hst, hmem, hconfig] at htail

def rowsOf (db : Db) (d : String) : List TcpColumns :=
  (db.tcp.map TcpRow.columns).filter (fun c => c.domain = d)

def working (columns : List TcpColumns) : Nat := columns.countP TcpColumns.isWorking

def dnsResolveFails (columns : List TcpColumns) : Nat :=
  columns.countP (fun c => c.failPhase = FailPhase.dnsResolve.value)

theorem rowsOf_eq (db : Db) (d : String) :
    rowsOf db d = (db.tcp.filter (fun t => t.columns.domain = d)).map TcpRow.columns := by
  rw [rowsOf, List.filter_map]
  rfl

theorem domainPassRows_eq (db : Db) : db.domainPassRows =
    (db.tcp.map (fun t => t.columns.domain)).dedup.map
      (fun d => (d, ((rowsOf db d).length : Int), (working (rowsOf db d) : Int))) := by
  apply List.map_congr_left
  intro d _
  simp only [rowsOf_eq, working, List.length_map, List.countP_map]
  rfl

theorem domainDnsResolveFailRows_eq (db : Db) : db.domainDnsResolveFailRows =
    (db.tcp.map (fun t => t.columns.domain)).dedup.map
      (fun d => (d, (dnsResolveFails (rowsOf db d) : Int), (working (rowsOf db d) : Int))) := by
  apply List.map_congr_left
  intro d _
  simp only [rowsOf_eq, working, dnsResolveFails, List.countP_map]
  rfl

theorem mem_domains_iff (db : Db) (d : String) :
    d ∈ (db.tcp.map (fun t => t.columns.domain)).dedup ↔ rowsOf db d ≠ [] := by
  rw [rowsOf_eq, List.mem_dedup, List.mem_map]
  simp [List.filter_eq_nil_iff]

/-- A seed with one row for each domain of a list. -/
theorem seedLoop_grouped (q : DomainQuarantine) (counter : Counter) {domains : List String}
    (hnodup : domains.Nodup) (f : String → Int × Int) (d : String) :
    (seedLoop counter q (domains.map (fun d => (d, f d)))).2.statsOf d =
        (if d ∈ domains then seededStats counter (q.statsOf d) (d, f d) else q.statsOf d) ∧
      (d ∈ (seedLoop counter q (domains.map (fun d => (d, f d)))).2.excludeDomains ↔
        d ∈ q.excludeDomains ∨ d ∈ domains ∧
          Due q.config counter (seededStats counter (q.statsOf d) (d, f d))) := by
  have hfst : (domains.map (fun d => (d, f d))).map Prod.fst = domains := by
    rw [List.map_map]
    exact List.map_id domains
  by_cases hd : d ∈ domains
  · rw [if_pos hd]
    simp only [hd, true_and]
    exact seedLoop_row (hfst.symm ▸ hnodup) (List.mem_map_of_mem hd)
  · rw [if_neg hd]
    simp only [hd, false_and, or_false]
    have hnot : d ∉ (domains.map (fun d => (d, f d))).map Prod.fst := hfst.symm ▸ hd
    refine ⟨?_, seedLoop_mem_of_not_mem hnot⟩
    rw [statsOf, seedLoop_get?_of_not_mem hnot]
    rfl

/-- A seeded session excludes the domains with rows, none of them working, that
are at a threshold by all their rows or by those of the resolver. -/
theorem seeded_mem_iff (he : config.enabled = true) (db : Db) (d : String) :
    d ∈ (seeded config db).excludeDomains ↔ rowsOf db d ≠ [] ∧ working (rowsOf db d) = 0 ∧
      (config.minAttempts ≤ (rowsOf db d).length ∨
        config.dnsResolveMinAttempts ≤ dnsResolveFails (rowsOf db d)) := by
  have hnodup := List.nodup_dedup (db.tcp.map (fun t => t.columns.domain))
  rw [seeded, seedFromRows, seedDnsResolveFromRows, seed_eq_seedLoop (q := fresh config) he,
    seed_eq_seedLoop (by rwa [seedLoop_config]), domainPassRows_eq, domainDnsResolveFailRows_eq]
  obtain ⟨hst, hpass⟩ := seedLoop_grouped (fresh config) .attempts hnodup
    (fun d => (((rowsOf db d).length : Int), (working (rowsOf db d) : Int))) d
  rw [(seedLoop_grouped _ .dnsResolve hnodup _ d).2, hpass, hst, seedLoop_config]
  by_cases hrows : rowsOf db d = []
  · have hd := (mem_domains_iff db d).not.mpr (not_not.mpr hrows)
    simp only [hd, hrows, false_and, or_false, ne_eq, not_true_eq_false, iff_false]
    exact List.not_mem_nil
  · have hd := (mem_domains_iff db d).mpr hrows
    have hfresh : (fresh config).statsOf d = {} := rfl
    have hout : d ∉ (fresh config).excludeDomains := List.not_mem_nil
    have hconfig : (fresh config).config = config := rfl
    simp only [hd, if_true, true_and, hfresh, hout, false_or, hconfig, ne_eq, hrows, not_false_eq_true]
    simp only [Due, seededStats, Counter.threshold, Counter.count, Counter.setCount, Int.toNat_natCast,
      Nat.zero_max, Nat.max_self]
    tauto

theorem map_columns_write (db : Db) (runId : Nat) (entry : TcpEntry) :
    (db.write runId entry).tcp.map TcpRow.columns = db.tcp.map TcpRow.columns ++ [entry.columns] := by
  have hcolumns (db : Db) : db.tcp.map TcpRow.columns = (log db).map Logged.columns := by
    rw [← joined_rows db, log, List.map_map, List.map_map]
    rfl
  rw [hcolumns, hcolumns, log_write, List.map_append]
  rfl

theorem rowsOf_store (probes : List Probe) (d : String) :
    rowsOf (store probes) d = (probesOf d probes).map Probe.columns := by
  have hstore (db : Db) (probes : List Probe) :
      (probes.foldl (fun db p => db.write p.runId p.entry) db).tcp.map TcpRow.columns =
        db.tcp.map TcpRow.columns ++ probes.map Probe.columns := by
    induction probes generalizing db with
    | nil => rw [List.foldl_nil, List.map_nil, List.append_nil]
    | cons p probes ih =>
        rw [List.foldl_cons, ih, map_columns_write, List.append_assoc]
        rfl
  rw [rowsOf, store, hstore, probesOf]
  change (List.map Probe.columns probes).filter _ = _
  rw [List.filter_map]
  rfl

theorem campaignFailPhase_of_ne {result : TcpTestResult} (h : result.failPhase ≠ "") (backend : Backend)
    (status : Status) : campaignFailPhase result backend status = result.failPhase := by
  rw [campaignFailPhase]
  split_ifs <;> first | rfl | simp [orElse, h]

theorem failures_attempts_le (d : String) (probes : List Probe) :
    failures .attempts d probes ≤ ((probesOf d probes).map Probe.columns).length := by
  rw [List.length_map]
  exact List.countP_le_length.trans (List.takeWhile_sublist _).length_le

theorem failures_dnsResolve_le (d : String) (probes : List Probe) :
    failures .dnsResolve d probes ≤ dnsResolveFails ((probesOf d probes).map Probe.columns) := by
  rw [dnsResolveFails, List.countP_map]
  refine (List.countP_mono_left ?_).trans ((List.takeWhile_sublist _).countP_le)
  intro p _ hp
  have hphase : p.result.failPhase = FailPhase.dnsResolve.value := by
    by_contra hdns
    have hcounted := of_decide_eq_true hp
    rw [Probe.counted, if_neg hdns] at hcounted
    split at hcounted <;> cases hcounted
  refine decide_eq_true ?_
  change campaignFailPhase p.result p.backend _ = _
  rw [campaignFailPhase_of_ne (by rw [hphase]; decide), hphase]

theorem recorded_disabled (he : config.enabled = false) (probes : List Probe) :
    recorded config probes = fresh config := by
  rw [recorded]
  induction probes with
  | nil => rfl
  | cons p probes ih =>
      have hp : recordProbe (fresh config) p = fresh config := by
        rw [recordProbe, record, if_pos (Or.inl (by simp [fresh, he]))]
      rw [List.foldl_cons, hp, ih]

theorem seeded_disabled (he : config.enabled = false) (db : Db) : seeded config db = fresh config := by
  have hseed (counter : Counter) (rows : List Row) : (fresh config).seed counter rows = ([], fresh config) := by
    rw [seed, if_pos (by simp [fresh, he])]
  rw [seeded, seedFromRows, seedDnsResolveFromRows, hseed, hseed]

def ReachedByFailures (config : QuarantineConfig) (d : String) (probes : List Probe) : Prop :=
  ∃ counter : Counter, 0 < failures counter d probes ∧
    counter.threshold config ≤ failures counter d probes

theorem recorded_mem_iff (he : config.enabled = true) (d : String) (probes : List Probe) :
    d ∈ (recorded config probes).excludeDomains ↔ ReachedByFailures config d probes := by
  have hmem : d ∈ (recorded config probes).excludeDomains ↔ _ :=
    recordProbes_mem_iff (q := fresh config) he List.not_mem_nil
  have hcount (counter : Counter) : counter.count ((fresh config).statsOf d) = 0 := by
    cases counter <;> rfl
  simp only [hcount, Nat.zero_add] at hmem
  exact hmem.trans (and_iff_right rfl)

/-- The rows of a domain reach a threshold whenever its counted failures do. -/
theorem ReachedByFailures.by_rows (h : ReachedByFailures config d probes) : probesOf d probes ≠ [] ∧
    (config.minAttempts ≤ (probesOf d probes).length ∨
      config.dnsResolveMinAttempts ≤ dnsResolveFails ((probesOf d probes).map Probe.columns)) := by
  obtain ⟨counter, hpos, hthreshold⟩ := h
  refine ⟨?_, ?_⟩
  · intro hnil
    simp [failures, beforePass, hnil] at hpos
  · cases counter with
    | attempts =>
        have hle := failures_attempts_le d probes
        rw [List.length_map] at hle
        exact Or.inl (Nat.le_trans hthreshold hle)
    | dnsResolve => exact Or.inr (Nat.le_trans hthreshold (failures_dnsResolve_le d probes))

/-- Seeding from the rows of a campaign and recording its results one by one
quarantine a domain alike exactly when some row of it works and the failures
counted before its first pass stay below the thresholds, or none works and its
rows reach a threshold only where those failures do. -/
theorem replay_agrees_iff (config : QuarantineConfig) (probes : List Probe) (d : String) :
    (d ∈ (seeded config (store probes)).excludeDomains ↔
        d ∈ (recorded config probes).excludeDomains) ↔
      (config.enabled = true →
        (0 < working ((probesOf d probes).map Probe.columns) → ∀ counter : Counter,
          failures counter d probes = 0 ∨ failures counter d probes < counter.threshold config) ∧
        (working ((probesOf d probes).map Probe.columns) = 0 → probesOf d probes ≠ [] →
          config.minAttempts ≤ (probesOf d probes).length ∨
            config.dnsResolveMinAttempts ≤ dnsResolveFails ((probesOf d probes).map Probe.columns) →
          ∃ counter : Counter, 0 < failures counter d probes ∧
            counter.threshold config ≤ failures counter d probes)) := by
  cases he : config.enabled with
  | false =>
      rw [recorded_disabled he, seeded_disabled he]
      exact iff_of_true Iff.rfl (fun h => absurd h Bool.false_ne_true)
  | true =>
      have hbelow : (∀ counter : Counter, failures counter d probes = 0 ∨
          failures counter d probes < counter.threshold config) ↔ ¬ ReachedByFailures config d probes := by
        rw [ReachedByFailures, not_exists]
        refine forall_congr' (fun counter => ?_)
        omega
      rw [seeded_mem_iff he, recorded_mem_iff he, rowsOf_store, List.length_map, hbelow, ne_eq,
        List.map_eq_nil_iff]
      rcases Nat.eq_zero_or_pos (working ((probesOf d probes).map Probe.columns)) with hzero | hpos
      · simp only [hzero, Nat.lt_irrefl, forall_true_left, true_and, false_imp_iff]
        exact ⟨fun h hne hrows => h.mp ⟨hne, hrows⟩,
          fun h => ⟨fun hne => h hne.1 hne.2, ReachedByFailures.by_rows⟩⟩
      · simp only [Nat.ne_of_gt hpos, hpos, false_and, and_false, false_iff, forall_true_left,
          false_imp_iff, and_true]

def exhausted : Probe :=
  ⟨1, splitItem, "a.example", skippedResult nsPoolExhausted splitItem "a.example", .luaBridge, {}⟩

/-- Two jobs that found no namespace are two attempts for a resumed session. -/
theorem exhausted_twice_seeds_quarantine :
    "a.example" ∈ (seeded atTwo (store [exhausted, exhausted])).excludeDomains ∧
      "a.example" ∉ (recorded atTwo [exhausted, exhausted]).excludeDomains := by
  decide +kernel

end Blockchecks.QuarantineReplay
