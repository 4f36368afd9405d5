import Blockchecks.PairRun
namespace Blockchecks.PairResume
open PairRun ProbeLogger Results RunStore Runs StrategyText
open PairMatrix hiding State Action step start

theorem nat_repr_injective {m n : Nat} (h : Nat.repr m = Nat.repr n) : m = n := by
  have hdigits := congrArg (fun s => Nat.ofDigitChars 10 s.toList 0) h
  simpa only [Nat.toList_repr, Nat.ofDigitChars_ten_toDigits] using hdigits

theorem isDigit_of_mem_repr {n : Nat} {c : Char} (h : c ∈ (Nat.repr n).toList) : c.isDigit = true :=
  Nat.isDigit_of_mem_toDigits (by decide) (by decide) (Nat.toList_repr ▸ h)

theorem int_toList (n : Int) : (toString n).toList =
    match n with
    | .ofNat m => (Nat.repr m).toList
    | .negSucc m => '-' :: (Nat.repr (m + 1)).toList := by
  cases n with
  | ofNat m => rfl
  | negSucc m => exact String.toList_append

theorem dash_notMem (n : Nat) : '-' ∉ (Nat.repr n).toList := fun h =>
  absurd (isDigit_of_mem_repr h) (by decide)

theorem port_injective {a b : Int} (h : (toString a).toList = (toString b).toList) : a = b := by
  rw [int_toList, int_toList] at h
  cases a with
  | ofNat m =>
      cases b with
      | ofNat n => rw [nat_repr_injective (String.toList_injective h)]
      | negSucc n => exact absurd (Eq.mpr (congrArg (Membership.mem · '-') h) List.mem_cons_self) (dash_notMem m)
  | negSucc m =>
      cases b with
      | ofNat n => exact absurd (Eq.mp (congrArg (Membership.mem · '-') h) List.mem_cons_self) (dash_notMem n)
      | negSucc n =>
          have htail := nat_repr_injective (String.toList_injective (List.cons.inj h).2)
          rw [Nat.succ.inj htail]

theorem colon_notMem (n : Int) : ':' ∉ (toString n).toList := by
  rw [int_toList]
  cases n with
  | ofNat m => exact fun h => absurd (isDigit_of_mem_repr h) (by decide)
  | negSucc m =>
      rw [List.mem_cons]
      rintro (h | h)
      · exact absurd h (by decide)
      · exact absurd (isDigit_of_mem_repr h) (by decide)

theorem append_last_inj {α : Type} {sep : α} {x y u v : List α} (hu : sep ∉ u) (hv : sep ∉ v)
    (h : x ++ sep :: u = y ++ sep :: v) : x = y ∧ u = v := by
  rcases List.append_eq_append_iff.mp h with ⟨c, rfl, hc⟩ | ⟨c, rfl, hc⟩
  · cases c with
    | nil => exact ⟨(List.append_nil x).symm, (List.cons.inj hc).2⟩
    | cons d c => exact absurd ((List.cons.inj hc).2 ▸ List.mem_append_right c List.mem_cons_self) hu
  · cases c with
    | nil => exact ⟨List.append_nil y, (List.cons.inj hc).2.symm⟩
    | cons d c => exact absurd ((List.cons.inj hc).2 ▸ List.mem_append_right c List.mem_cons_self) hv

theorem pairLogDomain_injective (domain : String) {a b : Target}
    (h : pairLogDomain domain a.1 a.2 true = pairLogDomain domain b.1 b.2 true) : a = b := by
  have hlist := congrArg String.toList h
  simp only [pairLogDomain, if_true, String.toList_append, List.append_assoc, List.append_cancel_left_eq] at hlist
  obtain ⟨hip, hport⟩ := append_last_inj (colon_notMem a.2) (colon_notMem b.2) hlist
  exact Prod.ext (String.toList_injective hip) (port_injective hport)

theorem targetsFrom_nodup (eps : List VoiceEp) : ∀ out : List Target, out.Nodup → (targetsFrom out eps).Nodup := by
  induction eps with
  | nil => exact fun out h => h
  | cons ep eps ih =>
      intro out h
      rw [targetsFrom, List.foldl_cons]
      split
      · exact ih out h
      · split
        · exact ih out h
        next hkey => exact ih _ (h.append (List.nodup_singleton _) (by simpa using hkey))

theorem targets_nodup (p : Plan) : p.targets.Nodup := by
  rw [Plan.targets, resolveVoiceTargets]
  split
  · exact List.nodup_singleton _
  · exact targetsFrom_nodup p.multiEps [] List.nodup_nil

variable {p : Plan} {session : Session} {poolSize : Nat} {store : Option PairStore} {s s' : State}
  {a : Action}

/-- The targets of a run do not share the domain that they log under. -/
theorem logDomain_injective {a b : Target} (ha : a ∈ p.targets) (hb : b ∈ p.targets)
    (h : p.logDomain a = p.logDomain b) : a = b := by
  by_cases hmulti : 1 < p.targets.length
  · rw [Plan.logDomain, Plan.logDomain, decide_eq_true hmulti] at h
    exact pairLogDomain_injective p.primary h
  · obtain ⟨t, ht⟩ := List.length_eq_one_iff.mp (Nat.le_antisymm (Nat.not_lt.mp hmulti) (List.length_pos_of_mem ha))
    rw [ht, List.mem_singleton] at ha hb
    rw [ha, hb]

theorem call_logDomain (p : Plan) (session : Session) (e : Target) :
    (p.call session e).logDomain = p.logDomain e := by
  rw [Call.logDomain, Plan.call, Plan.logDomain]
  by_cases hmulti : 1 < p.targets.length
  · rw [if_pos hmulti, Option.getD_some, decide_eq_true hmulti, orElse, if_neg]
    intro hempty
    have hlist := congrArg String.toList hempty
    simp [pairLogDomain, String.toList_append] at hlist
  · rw [if_neg hmulti, decide_eq_false hmulti]
    rfl

/-- The pairs of a target that a session over a store still has to probe. -/
def openTasks (p : Plan) (session : Session) (store : Option PairStore) (e : Target) : List Task :=
  (p.call session e).tasks.filter (fun t => t.key ∉ keysOf store (p.logDomain e))

/-- The probed pairs are the open ones of some targets. -/
def Probes (p : Plan) (session : Session) (store : Option PairStore) (targets : List Target)
    (probed : List (Target × Task)) : Prop :=
  ∀ e t, (e, t) ∈ probed ↔ e ∈ targets ∧ t ∈ openTasks p session store e

/-- How far a session has come that began with a store. -/
inductive Inv (p : Plan) (session : Session) (store : Option PairStore) (s : State) : Prop where
  | first (hstage : s.stage = .tcp p.primary p.others) (hearlier : s.earlier = [])
      (hkeys : ∀ e ∈ p.pairTargets, keysOf s.matrix.store (p.logDomain e) = keysOf store (p.logDomain e))
  | pairs (before : List Target) (target : Target) (left : List Target)
      (hstage : s.stage = .pairs target left) (htargets : p.pairTargets = before ++ target :: left)
      (hearlier : Probes p session store before s.earlier)
      (hprobes : s.matrix.probes.Perm (openTasks p session store target))
      (hkeys : ∀ e ∈ left, keysOf s.matrix.store (p.logDomain e) = keysOf store (p.logDomain e))
  | after (domain : String) (left : List String) (hstage : s.stage = .tcp domain left)
      (hleft : p.primary ∉ domain :: left) (hearlier : Probes p session store p.pairTargets s.earlier)
  | ended (hstage : s.stage = .ended) (hearlier : Probes p session store p.pairTargets s.earlier)

theorem inv_nextDomain {left : List String} (hleft : p.primary ∉ left)
    (hprobed : Probes p session store p.pairTargets s.probed) : Inv p session store (s.nextDomain left) := by
  cases left with
  | nil => exact .ended rfl hprobed
  | cons domain left => exact .after domain left rfl hleft hprobed

theorem inv_nextTarget {before left : List Target} (htargets : p.pairTargets = before ++ left)
    (hprobed : Probes p session store before s.probed)
    (hkeys : ∀ e ∈ left, keysOf s.matrix.store (p.logDomain e) = keysOf store (p.logDomain e)) :
    Inv p session store (s.nextTarget p session left) := by
  cases left with
  | nil =>
      rw [List.append_nil] at htargets
      exact inv_nextDomain p.fresh (htargets ▸ hprobed)
  | cons target left =>
      refine .pairs before target left rfl htargets hprobed ?_ (fun e he => hkeys e (List.mem_cons_of_mem _ he))
      have hstart : (State.nextTarget s p session (target :: left)).matrix.probes =
          (p.call session target).tasks.filter
            (fun t => t.key ∉ keysOf s.matrix.store (p.call session target).logDomain) := rfl
      rw [hstart, call_logDomain, hkeys target List.mem_cons_self, openTasks]

theorem pairTargets_subset {e : Target} (he : e ∈ p.pairTargets) : e ∈ p.targets := by
  rw [Plan.pairTargets] at he
  split at he
  · cases he
  · exact he

theorem pairTargets_nodup (p : Plan) : p.pairTargets.Nodup := by
  rw [Plan.pairTargets]
  split
  · exact List.nodup_nil
  · exact targets_nodup p

/-- What the matrix of a target has probed is added to what was before. -/
theorem probes_current {before : List Target} {target : Target} {left : List Target}
    (hstage : s.stage = .pairs target left) (hearlier : Probes p session store before s.earlier)
    (hprobes : s.matrix.probed.Perm (openTasks p session store target)) :
    Probes p session store (before ++ [target]) s.probed := by
  intro e t
  rw [PairRun.State.probed, State.current, hstage, List.mem_append, hearlier e t, List.mem_append, List.mem_singleton]
  simp only [List.mem_map, Prod.mk.injEq]
  constructor
  · rintro (⟨he, ht⟩ | ⟨u, hu, rfl, rfl⟩)
    · exact ⟨Or.inl he, ht⟩
    · exact ⟨Or.inr rfl, hprobes.mem_iff.mp hu⟩
  · rintro ⟨he | rfl, ht⟩
    · exact Or.inl ⟨he, ht⟩
    · exact Or.inr ⟨t, hprobes.mem_iff.mpr ht, rfl, rfl⟩

theorem probed_eq (hstage : ∀ target left, s.stage ≠ .pairs target left) : s.probed = s.earlier := by
  rw [PairRun.State.probed, State.current]
  split
  next target left h => exact absurd h (hstage target left)
  · exact List.append_nil _
  · exact List.append_nil _

theorem step_inv (hinv : Inv p session store s) (h : step p session poolSize s a = some s') :
    Inv p session store s' := by
  cases a with
  | log item domain dns =>
      rw [step] at h
      split at h
      · obtain rfl := Option.some.inj h
        cases hinv with
        | first hstage hearlier hkeys => exact .first hstage hearlier hkeys
        | pairs before target left hstage htargets hearlier hprobes hkeys =>
            exact .pairs before target left hstage htargets hearlier hprobes hkeys
        | after domain left hstage hleft hearlier => exact .after domain left hstage hleft hearlier
        | ended hstage hearlier => exact .ended hstage hearlier
      · cases h
  | pair a =>
      cases hinv with
      | pairs before target left hstage htargets hearlier hprobes hkeys =>
          simp only [step, hstage, Option.map_eq_some_iff] at h
          obtain ⟨m, hm, rfl⟩ := h
          refine .pairs before target left rfl htargets hearlier ((step_probes hm).trans hprobes) (fun e he => ?_)
          have hne : e ≠ target := by
            rintro rfl
            have hnodup := htargets ▸ pairTargets_nodup p
            exact (List.nodup_cons.mp (List.nodup_append.mp hnodup).2.1).1 he
          rw [← hkeys e he]
          refine step_keys (fun heq => hne ?_) hm
          rw [call_logDomain] at heq
          have hmem : ∀ e ∈ target :: left, e ∈ p.targets := fun e he =>
            pairTargets_subset (htargets ▸ List.mem_append_right before he)
          exact logDomain_injective (hmem e (List.mem_cons_of_mem _ he)) (hmem target List.mem_cons_self) heq.symm
      | first hstage _ _ | after _ _ hstage _ _ | ended hstage _ =>
          simp only [step, hstage] at h
          cases h
  | next =>
      cases hinv with
      | first hstage hearlier hkeys =>
          simp only [step, hstage, if_true] at h
          obtain rfl := Option.some.inj h
          refine inv_nextTarget (List.nil_append _).symm ?_ hkeys
          rw [probed_eq (by simp [hstage]), hearlier]
          intro e t
          simp
      | pairs before target left hstage htargets hearlier hprobes hkeys =>
          simp only [step, hstage] at h
          split at h
          next hdone =>
            obtain rfl := Option.some.inj h
            rw [PairMatrix.State.probes, hdone.1, List.filter_nil, List.append_nil] at hprobes
            have hsplit : p.pairTargets = (before ++ [target]) ++ left := by simp [htargets]
            exact inv_nextTarget hsplit (probes_current hstage hearlier hprobes) hkeys
          · cases h
      | after domain left hstage hleft hearlier =>
          have hne : domain ≠ p.primary := fun heq => hleft (heq ▸ List.mem_cons_self)
          simp only [step, hstage, if_neg hne] at h
          obtain rfl := Option.some.inj h
          refine inv_nextDomain (fun hmem => hleft (List.mem_cons_of_mem _ hmem)) ?_
          rw [probed_eq (by simp [hstage])]
          exact hearlier
      | ended hstage _ =>
          simp only [step, hstage] at h
          cases h

end Blockchecks.PairResume
