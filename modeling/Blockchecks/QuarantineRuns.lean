import Blockchecks.Quarantine

namespace Blockchecks.QuarantineRuns

open FailPhases OrderedDict Quarantine DomainQuarantine

variable {q q' q'' : DomainQuarantine} {counter : Counter} {domain d : String} {st : DomainStats}

/-- The counter is at or above its threshold and the domain never passed. -/
def Due (config : QuarantineConfig) (counter : Counter) (st : DomainStats) : Prop :=
  counter.threshold config ≤ counter.count st ∧ st.passed = 0

instance (config : QuarantineConfig) (counter : Counter) (st : DomainStats) :
    Decidable (Due config counter st) :=
  inferInstanceAs (Decidable (_ ∧ _))

theorem weigh_eq (q : DomainQuarantine) (counter : Counter) (domain : String) (st : DomainStats) :
    q.weigh counter domain st =
      if domain ∉ q.excludeDomains ∧ Due q.config counter st then
        (some domain, { q with stats := q.stats.set domain st }.mark counter domain st)
      else (none, { q with stats := q.stats.set domain st }) := rfl

@[simp] theorem weigh_config (q : DomainQuarantine) (counter : Counter) (domain : String)
    (st : DomainStats) : (q.weigh counter domain st).2.config = q.config := by
  rw [weigh_eq]
  split <;> rfl

@[simp] theorem weigh_stats (q : DomainQuarantine) (counter : Counter) (domain : String)
    (st : DomainStats) : (q.weigh counter domain st).2.stats = q.stats.set domain st := by
  rw [weigh_eq]
  split <;> rfl

theorem mem_weigh (q : DomainQuarantine) (counter : Counter) (domain : String) (st : DomainStats)
    (d : String) :
    d ∈ (q.weigh counter domain st).2.excludeDomains ↔
      d ∈ q.excludeDomains ∨ d = domain ∧ Due q.config counter st := by
  rw [weigh_eq]
  split
  next h =>
    simp only [excludeDomains, mark, Dict.mem_keys_set]
    tauto
  next h =>
    constructor
    · exact Or.inl
    · rintro (hd | ⟨rfl, hdue⟩)
      · exact hd
      · by_contra hno
        exact h ⟨hno, hdue⟩

@[simp] theorem recordPass_config (q : DomainQuarantine) (domain : String) :
    (q.recordPass domain).config = q.config := rfl

@[simp] theorem recordPass_excludeDomains (q : DomainQuarantine) (domain : String) :
    (q.recordPass domain).excludeDomains = q.excludeDomains := rfl

@[simp] theorem record_config (q : DomainQuarantine) (domain : String) (passed : Bool)
    (status : Option String) (failPhase error : String) :
    (q.record domain passed status failPhase error).2.config = q.config := by
  simp only [record, recordFail]
  split_ifs <;> simp

def failCounter (failPhase : String) : Counter :=
  if failPhase = FailPhase.dnsResolve.value then .dnsResolve else .attempts

theorem record_cases (q : DomainQuarantine) (domain : String) (passed : Bool)
    (status : Option String) (failPhase error : String) :
    q.record domain passed status failPhase error = (none, q) ∨
      q.record domain passed status failPhase error = (none, q.recordPass domain) ∨
      domain ∉ q.excludeDomains ∧
        q.record domain passed status failPhase error = q.recordFail (failCounter failPhase) domain := by
  rw [record]
  split
  · exact Or.inl rfl
  next hq =>
    have hfree : domain ∉ q.excludeDomains := fun h => hq (Or.inr h)
    split
    · exact Or.inr (Or.inl rfl)
    · by_cases hdns : failPhase = FailPhase.dnsResolve.value
      · rw [if_pos hdns, failCounter, if_pos hdns]
        exact Or.inr (Or.inr ⟨hfree, rfl⟩)
      · rw [if_neg hdns, failCounter, if_neg hdns]
        split
        · exact Or.inl rfl
        · exact Or.inr (Or.inr ⟨hfree, rfl⟩)

@[simp] theorem seedLoop_config (counter : Counter) (q : DomainQuarantine) (rows : List Row) :
    (seedLoop counter q rows).2.config = q.config := by
  induction rows generalizing q with
  | nil => rfl
  | cons row rows ih => simp [seedLoop, ih, seedRow]

theorem seedLoop_append (counter : Counter) (q : DomainQuarantine) (xs ys : List Row) :
    (seedLoop counter q (xs ++ ys)).2 = (seedLoop counter (seedLoop counter q xs).2 ys).2 := by
  induction xs generalizing q with
  | nil => rfl
  | cons row rows ih => simp [seedLoop, ih]

theorem seed_eq_seedLoop (he : q.config.enabled = true) (rows : List Row) :
    q.seed counter rows = seedLoop counter q rows := by
  simp [seed, he]

@[simp] theorem call_config (q : DomainQuarantine) (c : Call) : (q.call c).2.config = q.config := by
  cases c with
  | record => simp [call]
  | seedFromRows rows =>
      simp only [call, seedFromRows, seed]
      split <;> simp
  | seedDnsResolveFromRows rows =>
      simp only [call, seedDnsResolveFromRows, seed]
      split <;> simp

@[simp] theorem calls_config (q : DomainQuarantine) (cs : List Call) :
    (calls q cs).2.config = q.config := by
  induction cs generalizing q with
  | nil => rfl
  | cons c cs ih => simp [calls, ih]

/-- Every domain with counters is quarantined, has passed, or is below both thresholds. -/
def Settled (q : DomainQuarantine) : Prop :=
  ∀ d st, q.stats.get? d = some st →
    d ∈ q.excludeDomains ∨ 0 < st.passed ∨ ∀ counter : Counter, counter.count st < counter.threshold q.config

def Positive (config : QuarantineConfig) : Prop := ∀ counter : Counter, 0 < counter.threshold config

theorem Settled.statsOf (h : Settled q) (hpos : Positive q.config) (d : String) :
    d ∈ q.excludeDomains ∨ 0 < (q.statsOf d).passed ∨
      ∀ counter : Counter, counter.count (q.statsOf d) < counter.threshold q.config := by
  cases hst : q.stats.get? d with
  | some st =>
      rw [DomainQuarantine.statsOf, hst]
      exact h d st hst
  | none =>
      rw [DomainQuarantine.statsOf, hst]
      refine Or.inr (Or.inr (fun counter => ?_))
      cases counter <;> exact hpos _

/-- Raising one counter of a domain and never lowering its passes keeps the
state settled: the domain is quarantined exactly when the raised counter is due. -/
theorem weigh_settled (h : Settled q) (hst : domain ∈ q.excludeDomains ∨ 0 < st.passed ∨
      ∀ c : Counter, c ≠ counter → c.count st < c.threshold q.config) :
    Settled (q.weigh counter domain st).2 := by
  intro d st' hget
  rw [weigh_stats, Dict.get?_set] at hget
  rw [mem_weigh, weigh_config]
  by_cases hd : d = domain
  · subst hd
    rw [if_pos rfl] at hget
    obtain rfl := Option.some.inj hget
    by_cases hdue : Due q.config counter st
    · exact Or.inl (Or.inr ⟨rfl, hdue⟩)
    · rcases hst with hin | hpass | hbelow
      · exact Or.inl (Or.inl hin)
      · exact Or.inr (Or.inl hpass)
      · by_cases hzero : st.passed = 0
        · refine Or.inr (Or.inr (fun c => ?_))
          by_cases hc : c = counter
          · subst hc
            by_contra hge
            exact hdue ⟨Nat.le_of_not_lt hge, hzero⟩
          · exact hbelow c hc
        · exact Or.inr (Or.inl (Nat.pos_of_ne_zero hzero))
  · rw [if_neg hd] at hget
    rcases h d st' hget with hin | hrest
    · exact Or.inl (Or.inl hin)
    · exact Or.inr hrest

theorem count_setCount_of_ne {c : Counter} (hc : c ≠ counter) (st : DomainStats) (n : Nat) :
    c.count (counter.setCount st n) = c.count st := by
  cases c <;> cases counter <;> first | rfl | exact absurd rfl hc

@[simp] theorem count_setCount (counter : Counter) (st : DomainStats) (n : Nat) :
    counter.count (counter.setCount st n) = n := by
  cases counter <;> rfl

@[simp] theorem setCount_passed (counter : Counter) (st : DomainStats) (n : Nat) :
    (counter.setCount st n).passed = st.passed := by
  cases counter <;> rfl

@[simp] theorem count_passed (counter : Counter) (st : DomainStats) (n : Nat) :
    counter.count { st with passed := n } = counter.count st := by
  cases counter <;> rfl

theorem seedRow_settled (h : Settled q) (hpos : Positive q.config) (row : Row) :
    Settled (q.seedRow counter row).2 := by
  apply weigh_settled h
  rcases h.statsOf hpos row.1 with hin | hpass | hbelow
  · exact Or.inl hin
  · refine Or.inr (Or.inl ?_)
    simp only [setCount_passed]
    exact Nat.lt_of_lt_of_le hpass (Nat.le_max_left _ _)
  · refine Or.inr (Or.inr (fun c hc => ?_))
    rw [count_passed, count_setCount_of_ne hc]
    exact hbelow c

theorem recordFail_settled (h : Settled q) (hpos : Positive q.config) (counter : Counter)
    (domain : String) : Settled (q.recordFail counter domain).2 := by
  apply weigh_settled h
  rcases h.statsOf hpos domain with hin | hpass | hbelow
  · exact Or.inl hin
  · exact Or.inr (Or.inl (by simpa using hpass))
  · refine Or.inr (Or.inr (fun c hc => ?_))
    rw [count_setCount_of_ne hc]
    exact hbelow c

theorem recordPass_settled (h : Settled q) (domain : String) : Settled (q.recordPass domain) := by
  intro d st hget
  simp only [recordPass, Dict.get?_set] at hget
  split at hget
  · obtain rfl := Option.some.inj hget
    exact Or.inr (Or.inl (Nat.succ_pos _))
  · exact h d st hget

theorem seedLoop_settled (h : Settled q) (hpos : Positive q.config) (rows : List Row) :
    Settled (seedLoop counter q rows).2 := by
  induction rows generalizing q with
  | nil => exact h
  | cons row rows ih =>
      apply ih (seedRow_settled h hpos row)
      rw [seedRow, weigh_config]
      exact hpos

theorem seed_settled (h : Settled q) (hpos : Positive q.config) (rows : List Row) :
    Settled (q.seed counter rows).2 := by
  rw [seed]
  split
  · exact h
  · exact seedLoop_settled h hpos rows

theorem call_settled (h : Settled q) (hpos : Positive q.config) (c : Call) :
    Settled (q.call c).2 := by
  cases c with
  | record domain passed status failPhase error =>
      simp only [call]
      rcases record_cases q domain passed status failPhase error with
        heq | heq | ⟨_, heq⟩
      · rw [heq]
        exact h
      · rw [heq]
        exact recordPass_settled h domain
      · rw [heq]
        exact recordFail_settled h hpos _ domain
  | seedFromRows rows => exact seed_settled h hpos rows
  | seedDnsResolveFromRows rows => exact seed_settled h hpos rows

theorem calls_settled (h : Settled q) (hpos : Positive q.config) (cs : List Call) :
    Settled (calls q cs).2 := by
  induction cs generalizing q with
  | nil => exact h
  | cons c cs ih =>
      have hconfig : Positive (q.call c).2.config := by rwa [call_config]
      exact ih (call_settled h hpos c) hconfig

/-- The step returns exactly the domains that it adds to the quarantine. -/
def Announces (q : DomainQuarantine) (newly : List String) (q' : DomainQuarantine) : Prop :=
  newly.Nodup ∧ (∀ d ∈ newly, d ∉ q.excludeDomains) ∧
    ∀ d, d ∈ q'.excludeDomains ↔ d ∈ q.excludeDomains ∨ d ∈ newly

theorem announces_nothing (h : ∀ d, d ∈ q'.excludeDomains ↔ d ∈ q.excludeDomains) :
    Announces q [] q' :=
  ⟨List.nodup_nil, fun _ hd => absurd hd List.not_mem_nil, by simpa using h⟩

theorem Announces.trans {first second : List String} (h : Announces q first q')
    (h' : Announces q' second q'') : Announces q (first ++ second) q'' := by
  obtain ⟨hn, hout, hiff⟩ := h
  obtain ⟨hn', hout', hiff'⟩ := h'
  refine ⟨List.nodup_append.mpr ⟨hn, hn', ?_⟩, ?_, ?_⟩
  · rintro a ha b hb rfl
    exact hout' a hb ((hiff a).mpr (Or.inr ha))
  · intro d hd
    rcases List.mem_append.mp hd with hd | hd
    · exact hout d hd
    · exact fun hin => hout' d hd ((hiff d).mpr (Or.inl hin))
  · intro d
    rw [hiff', hiff, List.mem_append, or_assoc]

theorem weigh_announces (q : DomainQuarantine) (counter : Counter) (domain : String)
    (st : DomainStats) :
    Announces q (q.weigh counter domain st).1.toList (q.weigh counter domain st).2 := by
  by_cases h : domain ∉ q.excludeDomains ∧ Due q.config counter st
  · have hfst : (q.weigh counter domain st).1 = some domain := by rw [weigh_eq, if_pos h]
    rw [hfst]
    refine ⟨List.nodup_singleton _, ?_, ?_⟩
    · intro d hd
      rw [List.mem_singleton.mp hd]
      exact h.1
    · intro d
      rw [mem_weigh, Option.toList_some, List.mem_singleton, and_iff_left h.2]
  · have hfst : (q.weigh counter domain st).1 = none := by rw [weigh_eq, if_neg h]
    rw [hfst]
    apply announces_nothing
    intro d
    rw [mem_weigh]
    constructor
    · rintro (hd | ⟨rfl, hdue⟩)
      · exact hd
      · by_contra hno
        exact h ⟨hno, hdue⟩
    · exact Or.inl

theorem seed_announces (counter : Counter) (q : DomainQuarantine) (rows : List Row) :
    Announces q (q.seed counter rows).1 (q.seed counter rows).2 := by
  rw [seed]
  split
  · exact announces_nothing (fun _ => Iff.rfl)
  · induction rows generalizing q with
    | nil => exact announces_nothing (fun _ => Iff.rfl)
    | cons row rows ih =>
        apply (weigh_announces q counter row.1 _).trans
        apply ih
        rw [weigh_config]
        assumption

theorem call_announces (q : DomainQuarantine) (c : Call) :
    Announces q (q.call c).1 (q.call c).2 := by
  cases c with
  | record domain passed status failPhase error =>
      simp only [call]
      rcases record_cases q domain passed status failPhase error with heq | heq | ⟨_, heq⟩
      · rw [heq]
        exact announces_nothing (fun _ => Iff.rfl)
      · rw [heq]
        exact announces_nothing (fun _ => Iff.rfl)
      · rw [heq]
        exact weigh_announces q _ domain _
  | seedFromRows rows => exact seed_announces .attempts q rows
  | seedDnsResolveFromRows rows => exact seed_announces .dnsResolve q rows

theorem calls_announces (q : DomainQuarantine) (cs : List Call) :
    Announces q (calls q cs).1 (calls q cs).2 := by
  induction cs generalizing q with
  | nil => exact announces_nothing (fun _ => Iff.rfl)
  | cons c cs ih => exact (call_announces q c).trans (ih _)

def AtThreshold (counter : Counter) (q : DomainQuarantine) (d : String) : Prop :=
  ∃ st, q.stats.get? d = some st ∧ Due q.config counter st

theorem weigh_enters (hd : d ∉ q.excludeDomains)
    (hin : d ∈ (q.weigh counter domain st).2.excludeDomains) :
    d = domain ∧ AtThreshold counter (q.weigh counter domain st).2 d := by
  rcases (mem_weigh q counter domain st d).mp hin with h | ⟨rfl, hdue⟩
  · exact absurd h hd
  · refine ⟨rfl, st, ?_, ?_⟩
    · rw [weigh_stats, Dict.get?_set, if_pos rfl]
    · rwa [weigh_config]

/-- At some row of the seed the domain is at its threshold. -/
def ReachedAtRow (counter : Counter) (q : DomainQuarantine) (rows : List Row) (d : String) : Prop :=
  ∃ before row after, rows = before ++ row :: after ∧ row.1 = d ∧
    AtThreshold counter (seedLoop counter q (before ++ [row])).2 d

theorem seedLoop_enters {rows : List Row} (hd : d ∉ q.excludeDomains)
    (hin : d ∈ (seedLoop counter q rows).2.excludeDomains) : ReachedAtRow counter q rows d := by
  induction rows generalizing q with
  | nil => exact absurd hin hd
  | cons row rows ih =>
      by_cases hrow : d ∈ (q.seedRow counter row).2.excludeDomains
      · obtain ⟨rfl, hat⟩ := weigh_enters hd hrow
        exact ⟨[], row, rows, rfl, rfl, hat⟩
      · obtain ⟨before, row', after, rfl, hrow', hat⟩ := ih hrow hin
        exact ⟨row :: before, row', after, rfl, hrow', hat⟩

theorem seedLoop_get?_of_not_mem {rows : List Row} (h : d ∉ rows.map Prod.fst) :
    (seedLoop counter q rows).2.stats.get? d = q.stats.get? d := by
  induction rows generalizing q with
  | nil => rfl
  | cons row rows ih =>
      rw [List.map_cons, List.mem_cons, not_or] at h
      have hrow : (q.seedRow counter row).2.stats.get? d = q.stats.get? d := by
        rw [seedRow, weigh_stats, Dict.get?_set, if_neg h.1]
      exact (ih h.2).trans hrow

theorem ReachedAtRow.at_end {rows : List Row} (h : ReachedAtRow counter q rows d)
    (hnodup : (rows.map Prod.fst).Nodup) : AtThreshold counter (seedLoop counter q rows).2 d := by
  obtain ⟨before, row, after, rfl, rfl, st, hget, hdue⟩ := h
  refine ⟨st, ?_, ?_⟩
  · rw [List.append_cons, seedLoop_append, seedLoop_get?_of_not_mem, hget]
    rw [List.map_append, List.map_cons] at hnodup
    exact (List.nodup_cons.mp (List.nodup_append.mp hnodup).2.1).1
  · rwa [seedLoop_config] at hdue ⊢

/-- How a domain enters the quarantine in a call. A seed that names each domain
at most once leaves it as it was at its row. -/
def Enters (q : DomainQuarantine) (d : String) : Call → Prop
  | .record domain passed status failPhase error =>
      AtThreshold (failCounter failPhase) (q.record domain passed status failPhase error).2 d
  | .seedFromRows rows => ReachedAtRow .attempts q rows d ∧
      ((rows.map Prod.fst).Nodup → AtThreshold .attempts (q.seedFromRows rows).2 d)
  | .seedDnsResolveFromRows rows => ReachedAtRow .dnsResolve q rows d ∧
      ((rows.map Prod.fst).Nodup → AtThreshold .dnsResolve (q.seedDnsResolveFromRows rows).2 d)

theorem seed_enters (he : q.config.enabled = true) {rows : List Row} (hd : d ∉ q.excludeDomains)
    (hin : d ∈ (q.seed counter rows).2.excludeDomains) :
    ReachedAtRow counter q rows d ∧
      ((rows.map Prod.fst).Nodup → AtThreshold counter (q.seed counter rows).2 d) := by
  rw [seed_eq_seedLoop he] at hin ⊢
  have hrow := seedLoop_enters hd hin
  exact ⟨hrow, hrow.at_end⟩

theorem call_enters (he : q.config.enabled = true) {c : Call} (hd : d ∉ q.excludeDomains)
    (hin : d ∈ (q.call c).2.excludeDomains) : Enters q d c := by
  cases c with
  | record domain passed status failPhase error =>
      simp only [call, Enters] at hin ⊢
      rcases record_cases q domain passed status failPhase error with heq | heq | ⟨_, heq⟩
      · rw [heq] at hin
        exact absurd hin hd
      · rw [heq] at hin
        exact absurd hin hd
      · rw [heq] at hin ⊢
        exact (weigh_enters hd hin).2
  | seedFromRows rows => exact seed_enters he hd hin
  | seedDnsResolveFromRows rows => exact seed_enters he hd hin

/-- The result says nothing about the domain: it is quarantined already, or an
infrastructure failure outside name resolution was reported. -/
def Ignored (q : DomainQuarantine) (domain : String) (passed : Bool) (status : Option String)
    (failPhase error : String) : Prop :=
  domain ∈ q.excludeDomains ∨ countsPass passed status = false ∧
    isInfraFailPhase failPhase error = true ∧ failPhase ≠ FailPhase.dnsResolve.value

theorem record_ignored {passed : Bool} {status : Option String} {failPhase error : String}
    (h : Ignored q domain passed status failPhase error) :
    q.record domain passed status failPhase error = (none, q) := by
  rw [record]
  split
  · rfl
  next hq =>
    rcases h with hin | ⟨hpass, hinfra, hphase⟩
    · exact absurd (Or.inr hin) hq
    · rw [hpass, if_neg Bool.false_ne_true, if_neg hphase, if_pos hinfra]

theorem positive_of_le {config : QuarantineConfig} (hmin : 1 ≤ config.minAttempts)
    (hdns : 1 ≤ config.dnsResolveMinAttempts) : Positive config := by
  intro counter
  cases counter with
  | attempts => exact hmin
  | dnsResolve => exact hdns

theorem settled_fresh (config : QuarantineConfig) : Settled (fresh config) :=
  fun _ _ h => nomatch h

/-- Whatever the order of the calls: every domain with counters is quarantined,
has passed or is below both thresholds; a domain enters the quarantine only at
its threshold and without a pass, and is announced once. -/
theorem quarantine_over_calls (config : QuarantineConfig) (he : config.enabled = true)
    (hmin : 1 ≤ config.minAttempts) (hdns : 1 ≤ config.dnsResolveMinAttempts) (cs : List Call) :
    (∀ d st, (calls (fresh config) cs).2.stats.get? d = some st →
      d ∈ (calls (fresh config) cs).2.excludeDomains ∨ 0 < st.passed ∨
        st.attempts < config.minAttempts ∧ st.dnsResolveAttempts < config.dnsResolveMinAttempts) ∧
    (calls (fresh config) cs).1.Nodup ∧
    (∀ c d, d ∉ (calls (fresh config) cs).2.excludeDomains →
      d ∈ ((calls (fresh config) cs).2.call c).2.excludeDomains →
      Enters (calls (fresh config) cs).2 d c) ∧
    ∀ domain passed status failPhase error,
      Ignored (calls (fresh config) cs).2 domain passed status failPhase error →
      (calls (fresh config) cs).2.record domain passed status failPhase error =
        (none, (calls (fresh config) cs).2) := by
  have hpos := positive_of_le hmin hdns
  refine ⟨?_, (calls_announces (fresh config) cs).1, ?_, ?_⟩
  · intro d st hget
    rcases calls_settled (settled_fresh config) hpos cs d st hget with hin | hpass | hbelow
    · exact Or.inl hin
    · exact Or.inr (Or.inl hpass)
    · rw [calls_config] at hbelow
      exact Or.inr (Or.inr ⟨hbelow .attempts, hbelow .dnsResolve⟩)
  · intro c d hd hin
    exact call_enters (by rw [calls_config]; exact he) hd hin
  · intro domain passed status failPhase error h
    exact record_ignored h

def atTwo : QuarantineConfig := { minAttempts := 2, dnsResolveMinAttempts := 2 }

def mixedCalls : List Call :=
  [.seedFromRows [("a.example", 1, 0), ("b.example", 5, 3)],
   .record "a.example" false none "other" "connection closed",
   .seedDnsResolveFromRows [("a.example", 7, 0), ("c.example", 1, 0)],
   .record "c.example" false none "dns_resolve" "no DoH A record"]

theorem quarantine_over_mixedCalls :
    (calls (fresh atTwo) mixedCalls).1 = ["a.example", "c.example"] ∧
      (calls (fresh atTwo) mixedCalls).1.Nodup :=
  ⟨by decide +kernel, (quarantine_over_calls atTwo rfl (by decide) (by decide) mixedCalls).2.1⟩

/-- A failed name resolution is counted also when its text carries an
infrastructure marker, and a seed that names a domain twice can leave a pass
with a domain that it quarantines. -/
theorem resolve_failure_counts_and_repeated_row :
    (isInfraFailPhase "dns_resolve" "getaddrinfo failed: Permission denied" = true ∧
      ((fresh atTwo).record "a.example" false none "dns_resolve"
        "getaddrinfo failed: Permission denied").2.stats.get? "a.example" =
        some { dnsResolveAttempts := 1 } ∧
      (fresh atTwo).stats.get? "a.example" = none) ∧
    ("a.example" ∉ (fresh atTwo).excludeDomains ∧
      "a.example" ∈ ((fresh atTwo).seedFromRows
        [("a.example", 2, 0), ("a.example", 0, 1)]).2.excludeDomains ∧
      ((fresh atTwo).seedFromRows [("a.example", 2, 0), ("a.example", 0, 1)]).2.stats.get? "a.example" =
        some { attempts := 2, passed := 1 }) := by
  decide +kernel

end Blockchecks.QuarantineRuns
