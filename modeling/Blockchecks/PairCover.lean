import Blockchecks.PairResume

namespace Blockchecks.PairCover

open FamilyGates PairRun PairResume ProbeLogger Results RunStore Runs StrategyText
open PairMatrix hiding State Action step start

variable {p : Plan} {session : Session} {poolSize : Nat} {db : Db} {store : PairStore} {s : State}
  {actions : List Action} {item udp : StrategyItem} {e : Target}

theorem probedOf_subset {scanLevel : String} {passes : StrategyItem → Bool} {selected : List StrategyItem} :
    probedOf scanLevel passes selected ⊆ selected := by
  rw [probedOf]
  split
  · intro item hitem
    rcases List.mem_append.mp hitem with h | h
    · exact (List.takeWhile_sublist _).mem h
    · exact (List.dropWhile_sublist _).mem (List.mem_of_mem_take h)
  · exact List.Subset.refl _

theorem gatedItems_subset (scanLevel : String) (done passes : StrategyItem → Bool) (working : List String)
    (needs : Needs) (blocks : List (List StrategyItem)) :
    gatedItems scanLevel done passes working needs blocks ⊆ blocks.flatten := by
  fun_induction gatedItems scanLevel done passes working needs blocks with
  | case1 => exact List.Subset.refl _
  | case2 needs blocks ih => exact ih
  | case3 =>
      rename_i ih
      exact List.subset_append_of_subset_right _ ih
  | case4 =>
      rename_i ih
      exact List.subset_append_of_subset_right _ ih
  | case5 needs item items blocks family selected _ _ probed =>
      rename_i ih
      rw [List.flatten_cons]
      have hselected : probed ⊆ item :: items := fun i hi => List.mem_of_mem_filter (probedOf_subset hi)
      refine List.append_subset.mpr ⟨List.subset_append_of_subset_left _ hselected, ?_⟩
      split
      · exact List.nil_subset _
      · exact List.subset_append_of_subset_right _ ih

theorem mem_tcpItems (h : item ∈ p.tcpItems session) : item ∈ p.items := by
  rw [Plan.tcpItems] at h
  split at h
  · have hblocks := gatedItems_subset _ _ _ _ _ _ h
    rw [familyBlocks, List.flatten_splitBy] at hblocks
    exact (List.perm_insertionSort _ p.items).mem_iff.mp hblocks
  · exact List.mem_of_mem_filter h

/-- The session probes the item and its pair is not logged. -/
def Opens (p : Plan) (session : Session) (store : Option PairStore) (item udp : StrategyItem) (e : Target) :
    Prop :=
  session.refused = false ∧ p.tcpOnly = false ∧ item ∈ p.tcpItems session ∧
    (item.label, udp.label) ∉ keysOf store (p.logDomain e)

instance (p : Plan) (session : Session) (store : Option PairStore) (item udp : StrategyItem) (e : Target) :
    Decidable (Opens p session store item udp e) :=
  inferInstanceAs (Decidable (_ ∧ _))

def pairs (s : State) : List (StrategyItem × StrategyItem × Target) :=
  s.probed.map (fun q => (q.2.tcp.item, q.2.udp, q.1))

theorem exists_mem_zipIdx {α : Type} {l : List α} {a : α} : (∃ i, (a, i) ∈ l.zipIdx) ↔ a ∈ l := by
  constructor
  · rintro ⟨i, h⟩
    exact List.fst_mem_of_mem_zipIdx h
  · intro h
    obtain ⟨i, hi, rfl⟩ := List.getElem_of_mem h
    exact ⟨i, List.mk_mem_zipIdx_iff_getElem?.mpr (List.getElem?_eq_getElem hi)⟩

/-- The tasks of a matrix, by their items. -/
theorem exists_task_iff : (∃ t ∈ (p.call session e).tasks, t.tcp.item = item ∧ t.udp = udp) ↔
    item ∈ p.tcpItems session ∧ (p.udpBypass || p.passes item) = true ∧ udp ∈ p.udp := by
  simp only [Call.tasks, Call.working, List.mem_flatMap, List.mem_filter, List.mem_map]
  constructor
  · rintro ⟨t, ⟨⟨r, i⟩, ⟨hr, hok⟩, ⟨u, j⟩, hu, rfl⟩, hitem, rfl⟩
    obtain ⟨x, hx, rfl⟩ := List.mem_map.mp (List.fst_mem_of_mem_zipIdx hr)
    rw [p.outcome_item] at hitem
    obtain rfl := hitem
    exact ⟨hx, hok, List.fst_mem_of_mem_zipIdx hu⟩
  · rintro ⟨hitem, hok, hu⟩
    obtain ⟨i, hi⟩ := exists_mem_zipIdx.mpr (List.mem_map_of_mem (f := fun item => p.outcome item p.primary) hitem)
    obtain ⟨j, hj⟩ := exists_mem_zipIdx.mpr hu
    exact ⟨_, ⟨_, ⟨hi, hok⟩, _, hj, rfl⟩, p.outcome_item _ _, rfl⟩

theorem exists_open_iff {store : Option PairStore} :
    (∃ t ∈ openTasks p session store e, t.tcp.item = item ∧ t.udp = udp) ↔
      item ∈ p.tcpItems session ∧ (p.udpBypass || p.passes item) = true ∧ udp ∈ p.udp ∧
        (item.label, udp.label) ∉ keysOf store (p.logDomain e) := by
  have htask := @exists_task_iff p session item udp e
  simp only [openTasks, List.mem_filter, decide_eq_true_iff]
  constructor
  · rintro ⟨t, ⟨ht, hkey⟩, rfl, rfl⟩
    obtain ⟨hitem, hok, hu⟩ := htask.mp ⟨t, ht, rfl, rfl⟩
    exact ⟨hitem, hok, hu, hkey⟩
  · rintro ⟨hitem, hok, hu, hkey⟩
    obtain ⟨t, ht, rfl, rfl⟩ := htask.mpr ⟨hitem, hok, hu⟩
    exact ⟨t, ⟨ht, hkey⟩, rfl, rfl⟩

theorem run_inv (hrefused : session.refused = false)
    (h : run (step p session poolSize) (start p session db store) actions = some s) :
    Inv p session (some store) s := by
  have hstart : Inv p session (some store) (start p session db store) := by
    refine .first ?_ rfl (fun _ _ => rfl)
    rw [start, hrefused]
    rfl
  exact run_invariant (fun _ _ _ hinv hstep => step_inv hinv hstep) hstart h

/-- A refused session does nothing. -/
theorem refused_pairs (hrefused : session.refused = true)
    (h : run (step p session poolSize) (start p session db store) actions = some s) : pairs s = [] := by
  cases actions with
  | nil =>
      obtain rfl := Option.some.inj h
      rw [pairs, probed_eq (by simp [start, hrefused])]
      rfl
  | cons a actions =>
      obtain ⟨t, ht, _⟩ := run_cons_eq_some.mp h
      cases a <;> simp [step, start, hrefused] at ht

theorem inv_bound {store : Option PairStore} (hinv : Inv p session store s) {t : Task} (h : (e, t) ∈ s.probed) :
    e ∈ p.pairTargets ∧ t ∈ openTasks p session store e := by
  cases hinv with
  | first hstage hearlier _ =>
      rw [probed_eq (by simp [hstage]), hearlier] at h
      cases h
  | pairs before target left hstage htargets hearlier hprobes _ =>
      rw [PairRun.State.probed, State.current, hstage, List.mem_append, hearlier e t] at h
      rw [htargets]
      rcases h with ⟨he, ht⟩ | h
      · exact ⟨List.mem_append_left _ he, ht⟩
      · obtain ⟨u, hu, heq⟩ := List.mem_map.mp h
        obtain ⟨rfl, rfl⟩ := Prod.mk.inj heq
        exact ⟨List.mem_append_right _ List.mem_cons_self, hprobes.mem_iff.mp (List.mem_append_left _ hu)⟩
  | after domain left hstage _ hearlier =>
      rw [probed_eq (by simp [hstage])] at h
      exact (hearlier e t).mp h
  | ended hstage hearlier =>
      rw [probed_eq (by simp [hstage])] at h
      exact (hearlier e t).mp h

theorem inv_ended {store : Option PairStore} (hinv : Inv p session store s) (hended : s.stage = .ended) :
    Probes p session store p.pairTargets s.probed := by
  rw [probed_eq (by simp [hended])]
  cases hinv with
  | ended _ hearlier => exact hearlier
  | first hstage _ _ | pairs _ _ _ hstage _ _ _ _ | after _ _ hstage _ _ =>
      rw [hended] at hstage
      cases hstage

theorem mem_pairs : (item, udp, e) ∈ pairs s ↔ ∃ t, (e, t) ∈ s.probed ∧ t.tcp.item = item ∧ t.udp = udp := by
  rw [pairs, List.mem_map]
  constructor
  · rintro ⟨⟨e', t⟩, ht, heq⟩
    simp only [Prod.mk.injEq] at heq
    obtain ⟨hitem, hudp, rfl⟩ := heq
    exact ⟨t, ht, hitem, hudp⟩
  · rintro ⟨t, ht, rfl, rfl⟩
    exact ⟨(e, t), ht, rfl⟩

theorem mem_pairTargets : e ∈ p.pairTargets ↔ p.tcpOnly = false ∧ p.udp ≠ [] ∧ e ∈ p.targets := by
  rw [Plan.pairTargets]
  split
  next h =>
    rw [Bool.or_eq_true, List.isEmpty_iff] at h
    refine iff_of_false List.not_mem_nil ?_
    rintro ⟨hpairs, hudp, _⟩
    rcases h with h | h
    · rw [hpairs] at h
      cases h
    · exact hudp h
  next h =>
    rw [Bool.or_eq_true, List.isEmpty_iff, not_or, Bool.not_eq_true] at h
    exact ⟨fun he => ⟨h.1, h.2, he⟩, fun he => he.2.2⟩

/-- The pairs that a session makes when it is not interrupted. -/
def Makes (p : Plan) (session : Session) (store : Option PairStore) (item udp : StrategyItem) (e : Target) :
    Prop :=
  (udp ∈ p.udp ∧ e ∈ p.targets) ∧ (p.udpBypass || p.passes item) = true ∧ Opens p session store item udp e

theorem makes_iff (hrefused : session.refused = false) {store : Option PairStore} :
    Makes p session store item udp e ↔
      e ∈ p.pairTargets ∧ ∃ t ∈ openTasks p session store e, t.tcp.item = item ∧ t.udp = udp := by
  rw [exists_open_iff, mem_pairTargets, Makes, Opens]
  constructor
  · rintro ⟨⟨hu, he⟩, hok, _, hpairs, hitem, hkey⟩
    exact ⟨⟨hpairs, List.ne_nil_of_mem hu, he⟩, hitem, hok, hu, hkey⟩
  · rintro ⟨⟨hpairs, _, he⟩, hitem, hok, hu, hkey⟩
    exact ⟨⟨hu, he⟩, hok, hrefused, hpairs, hitem, hkey⟩

theorem makes_of_mem (h : run (step p session poolSize) (start p session db store) actions = some s)
    (hmem : (item, udp, e) ∈ pairs s) : Makes p session (some store) item udp e := by
  cases hrefused : session.refused with
  | true =>
      rw [refused_pairs hrefused h] at hmem
      cases hmem
  | false =>
      obtain ⟨t, ht, hitem⟩ := mem_pairs.mp hmem
      obtain ⟨he, hopen⟩ := inv_bound (run_inv hrefused h) ht
      exact (makes_iff hrefused).mpr ⟨he, t, hopen, hitem⟩

theorem mem_ended_iff (h : run (step p session poolSize) (start p session db store) actions = some s)
    (hended : s.stage = .ended) : (item, udp, e) ∈ pairs s ↔ Makes p session (some store) item udp e := by
  refine ⟨makes_of_mem h, fun hmakes => ?_⟩
  have hrefused := hmakes.2.2.1
  obtain ⟨he, t, ht, hitem⟩ := (makes_iff hrefused).mp hmakes
  exact mem_pairs.mpr ⟨t, (inv_ended (run_inv hrefused h) hended e t).mpr ⟨he, ht⟩, hitem⟩

theorem run_pairs {target : Target} {left : List Target} (hstage : s.stage = .pairs target left)
    {as : List PairMatrix.Action} {m : PairMatrix.State}
    (h : run (PairMatrix.step poolSize (p.call session target)) s.matrix as = some m) :
    run (step p session poolSize) s (as.map .pair) = some { s with matrix := m } := by
  induction as generalizing s with
  | nil =>
      obtain rfl := Option.some.inj h
      rfl
  | cons a as ih =>
      obtain ⟨n, hn, hrun⟩ := run_cons_eq_some.mp h
      have hstep : step p session poolSize s (.pair a) = some { s with matrix := n } := by
        simp [step, hstage, hn]
      exact run_cons_eq_some.mpr ⟨_, hstep, @ih { s with matrix := n } hstage hrun⟩

/-- A session that is not interrupted gets to its end. -/
def Ends (p : Plan) (session : Session) (poolSize : Nat) (s : State) : Prop :=
  ∃ actions r, run (step p session poolSize) s actions = some r ∧ r.stage = .ended

theorem ends_of_run {t : State} (h : run (step p session poolSize) s actions = some t)
    (hends : Ends p session poolSize t) : Ends p session poolSize s := by
  obtain ⟨as, r, hr, hended⟩ := hends
  exact ⟨actions ++ as, r, run_trans h hr, hended⟩

theorem nextDomain_ends {left : List String} (hleft : p.primary ∉ left) (s : State) :
    Ends p session poolSize (s.nextDomain left) := by
  induction left generalizing s with
  | nil => exact ⟨[], _, rfl, rfl⟩
  | cons domain left ih =>
      have hne : domain ≠ p.primary := fun heq => hleft (heq ▸ List.mem_cons_self)
      have hrun : run (step p session poolSize) (s.nextDomain (domain :: left)) [.next] =
          some ((s.nextDomain (domain :: left)).nextDomain left) := by
        simp [run, step, State.nextDomain, hne]
      exact ends_of_run hrun (ih (fun hmem => hleft (List.mem_cons_of_mem _ hmem)) _)

theorem pairs_end (hpool : 0 < poolSize) {target : Target} {left : List Target}
    (hstage : s.stage = .pairs target left)
    (hleft : ∀ s : State, Ends p session poolSize (s.nextTarget p session left)) :
    Ends p session poolSize s := by
  obtain ⟨as, m, hm, hdone⟩ := PairMatrix.exists_finished hpool (p.call session target) s.matrix
  refine ends_of_run (run_pairs hstage hm) ?_
  have hrun : run (step p session poolSize) { s with matrix := m } [.next] =
      some (({ s with matrix := m } : State).nextTarget p session left) := by
    simp [run, step, hstage, hdone]
  exact ends_of_run hrun (hleft _)

theorem nextTarget_ends (hpool : 0 < poolSize) (left : List Target) (s : State) :
    Ends p session poolSize (s.nextTarget p session left) := by
  induction left generalizing s with
  | nil => exact nextDomain_ends p.fresh s
  | cons target left ih => exact pairs_end hpool rfl ih

theorem inv_ends (hpool : 0 < poolSize) {store : Option PairStore} (hinv : Inv p session store s) :
    Ends p session poolSize s := by
  cases hinv with
  | first hstage _ _ =>
      have hrun : run (step p session poolSize) s [.next] = some (s.nextTarget p session p.pairTargets) := by
        simp [run, step, hstage]
      exact ends_of_run hrun (nextTarget_ends hpool _ _)
  | pairs before target left hstage _ _ _ _ => exact pairs_end hpool hstage (nextTarget_ends hpool left)
  | after domain left hstage hleft _ =>
      have hne : domain ≠ p.primary := fun heq => hleft (heq ▸ List.mem_cons_self)
      have hrun : run (step p session poolSize) s [.next] = some (s.nextDomain left) := by
        simp [run, step, hstage, hne]
      exact ends_of_run hrun (nextDomain_ends (fun hmem => hleft (List.mem_cons_of_mem _ hmem)) _)
  | ended hstage _ => exact ⟨[], s, rfl, hstage⟩

theorem start_ends (hpool : 0 < poolSize) (p : Plan) (session : Session) (db : Db) (store : PairStore) :
    Ends p session poolSize (start p session db store) := by
  cases hrefused : session.refused with
  | true => exact ⟨[], _, rfl, by simp [start, hrefused]⟩
  | false =>
      have hempty : run (step p session poolSize) (start p session db store) [] = some (start p session db store) :=
        rfl
      exact inv_ends hpool (run_inv hrefused hempty)

/-- The pairs that a run has to probe: what passes on the primary domain with every
UDP strategy, at every endpoint. -/
def expected (p : Plan) : List (StrategyItem × StrategyItem × Target) :=
  (p.items.filter p.passes).flatMap (fun item =>
    p.udp.flatMap (fun udp => p.targets.map (fun e => (item, udp, e))))

theorem mem_expected : (item, udp, e) ∈ expected p ↔
    (udp ∈ p.udp ∧ e ∈ p.targets) ∧ item ∈ p.items ∧ p.passes item = true := by
  simp only [expected, List.mem_flatMap, List.mem_filter, List.mem_map, Prod.mk.injEq]
  constructor
  · rintro ⟨_, hitem, _, hu, _, he, rfl, rfl, rfl⟩
    exact ⟨⟨hu, he⟩, hitem⟩
  · rintro ⟨⟨hu, he⟩, hitem⟩
    exact ⟨item, hitem, udp, hu, e, he, rfl, rfl, rfl⟩

/-- The pairs before the interruption with those of the resumed run are those of the
uninterrupted run, which are the expected ones. -/
def SamePairs (p : Plan) (s resumed whole : State) : Prop :=
  (∀ q, q ∈ pairs s ∨ q ∈ pairs resumed ↔ q ∈ pairs whole) ∧ ∀ q, q ∈ pairs whole ↔ q ∈ expected p

/-- A session makes the expected pairs, but for some, and no other: it probes what
passes and has not logged its pairs, and with the UDP bypass nothing that fails. -/
def Covers (p : Plan) (session : Session) (store : Option PairStore)
    (done : List (StrategyItem × StrategyItem × Target)) : Prop :=
  ∀ item ∈ p.items, ∀ udp ∈ p.udp, ∀ e ∈ p.targets,
    (p.passes item = true → (item, udp, e) ∈ done ∨ Opens p session store item udp e) ∧
      (p.passes item = false → p.udpBypass = true → ¬ Opens p session store item udp e)

instance (p : Plan) (session : Session) (store : Option PairStore)
    (done : List (StrategyItem × StrategyItem × Target)) : Decidable (Covers p session store done) :=
  inferInstanceAs (Decidable (∀ item ∈ p.items, ∀ udp ∈ p.udp, ∀ e ∈ p.targets, _ ∧ _))

theorem covers_iff {store : Option PairStore} {done : List (StrategyItem × StrategyItem × Target)}
    (hdone : ∀ q ∈ done, q ∈ expected p) :
    Covers p session store done ↔ ∀ item udp e,
      (item, udp, e) ∈ done ∨ Makes p session store item udp e ↔ (item, udp, e) ∈ expected p := by
  constructor
  · intro h item udp e
    rw [mem_expected]
    constructor
    · rintro (hin | hmakes)
      · exact mem_expected.mp (hdone _ hin)
      · obtain ⟨⟨hu, he⟩, hok, hopens⟩ := hmakes
        have hitem := mem_tcpItems hopens.2.2.1
        refine ⟨⟨hu, he⟩, hitem, ?_⟩
        by_contra hfail
        rw [Bool.not_eq_true] at hfail
        rw [hfail, Bool.or_false] at hok
        exact (h item hitem udp hu e he).2 hfail hok hopens
    · rintro ⟨⟨hu, he⟩, hitem, hpass⟩
      refine ((h item hitem udp hu e he).1 hpass).imp_right (fun hopens => ⟨⟨hu, he⟩, ?_, hopens⟩)
      rw [hpass, Bool.or_true]
  · intro h item hitem udp hu e he
    constructor
    · intro hpass
      exact ((h item udp e).mpr (mem_expected.mpr ⟨⟨hu, he⟩, hitem, hpass⟩)).imp_right (fun hmakes => hmakes.2.2)
    · intro hfail hbypass hopens
      have hmakes : Makes p session store item udp e := ⟨⟨hu, he⟩, by rw [hbypass, Bool.true_or], hopens⟩
      have hpass := (mem_expected.mp ((h item udp e).mp (Or.inr hmakes))).2.2
      rw [hfail] at hpass
      cases hpass

def saved (s : State) : PairStore := s.matrix.store.getD {}

/-- Without family gates a session opens what it does not skip. -/
theorem opens_iff (hgates : p.useFamilyGates = false) {store : Option PairStore} :
    Opens p session store item udp e ↔ session.refused = false ∧ p.tcpOnly = false ∧
      (item ∈ p.items ∧ (item.label, p.primary) ∉ session.done) ∧
      (item.label, udp.label) ∉ keysOf store (p.logDomain e) := by
  rw [Opens, Plan.tcpItems, if_neg (by simp [hgates]), List.mem_filter, decide_eq_true_iff]

def tcpItem : StrategyItem := { label := "tcp_a", strategy := "fake" }

def udpItem : StrategyItem := { label := "u_a", strategy := "fake" }

def onePair : Plan where
  items := [tcpItem]
  udp := [udpItem]
  primary := "a.com"
  fresh := List.not_mem_nil
  voiceIp := "1.2.3.4"
  voicePort := 5
  fingerprint := "f"
  runId := 1
  outcome := fun item domain => { item, domain, success := true, httpCode := 200, bridgeApplied := some true }
  outcome_item := fun _ _ => rfl

def wholeRun : List Action :=
  [.next, .pair (.start 0), .pair (.finish 0 (.ok {})), .pair (.logPair 0), .pair (.saveCheckpoint 0), .next]

end Blockchecks.PairCover
