import Mathlib.Data.List.Basic

namespace Blockchecks.Runs

variable {State Action : Type} {step : State → Action → Option State}

/-- Follow a schedule. A run exists only when every action is enabled at the
state in which it is taken. -/
def run (step : State → Action → Option State) : State → List Action → Option State
  | s, [] => some s
  | s, a :: as => (step s a).bind (fun t => run step t as)

/-- Every action of the schedule satisfies the condition at the state before it. -/
def Along (step : State → Action → Option State) (C : State → Action → Prop) :
    State → List Action → Prop
  | _, [] => True
  | s, a :: as => C s a ∧ ∀ t, step s a = some t → Along step C t as

theorem run_cons_eq_some {s u : State} {a : Action} {as : List Action} :
    run step s (a :: as) = some u ↔ ∃ t, step s a = some t ∧ run step t as = some u :=
  Option.bind_eq_some_iff

theorem run_trans {s t u : State} {as bs : List Action} (h : run step s as = some t)
    (h' : run step t bs = some u) : run step s (as ++ bs) = some u := by
  induction as generalizing s with
  | nil =>
      obtain rfl := Option.some.inj h
      exact h'
  | cons a as ih =>
      obtain ⟨v, hv, hr⟩ := run_cons_eq_some.mp h
      exact run_cons_eq_some.mpr ⟨v, hv, ih hr⟩

theorem run_append_eq_some {s u : State} {as bs : List Action} :
    run step s (as ++ bs) = some u ↔ ∃ t, run step s as = some t ∧ run step t bs = some u := by
  induction as generalizing s with
  | nil =>
      refine ⟨fun h => ⟨s, rfl, h⟩, ?_⟩
      rintro ⟨t, ht, h⟩
      exact Option.some.inj ht ▸ h
  | cons a as ih =>
      rw [List.cons_append, run_cons_eq_some]
      constructor
      · rintro ⟨v, hv, h⟩
        obtain ⟨t, ht, hu⟩ := ih.mp h
        exact ⟨t, run_cons_eq_some.mpr ⟨v, hv, ht⟩, hu⟩
      · rintro ⟨t, ht, hu⟩
        obtain ⟨v, hv, hvt⟩ := run_cons_eq_some.mp ht
        exact ⟨v, hv, ih.mpr ⟨t, hvt, hu⟩⟩

theorem along_cons_of_some {C : State → Action → Prop} {s t : State} {a : Action}
    {as : List Action} (h : step s a = some t) :
    Along step C s (a :: as) ↔ C s a ∧ Along step C t as := by
  refine and_congr_right fun _ => ⟨fun hC => hC t h, fun hC _ hu => ?_⟩
  exact Option.some.inj (h.symm.trans hu) ▸ hC

theorem along_cons_of_none {C : State → Action → Prop} {s : State} {a : Action}
    {as : List Action} (h : step s a = none) : Along step C s (a :: as) ↔ C s a :=
  and_iff_left fun _ ht => nomatch h.symm.trans ht

instance decidableAlong {C : State → Action → Prop} [∀ s a, Decidable (C s a)] :
    (s : State) → (as : List Action) → Decidable (Along step C s as)
  | _, [] => isTrue trivial
  | s, a :: as => match h : step s a with
    | none => decidable_of_iff' _ (along_cons_of_none h)
    | some t =>
        have : Decidable (Along step C t as) := decidableAlong t as
        decidable_of_iff' _ (along_cons_of_some h)

/-- What one step preserves under a condition, a whole run preserves when all
its steps meet the condition. -/
theorem along_invariant {P : State → Prop} {C : State → Action → Prop}
    (hstep : ∀ s a t, P s → C s a → step s a = some t → P t)
    {s t : State} {as : List Action} (hs : P s) (hC : Along step C s as)
    (h : run step s as = some t) : P t := by
  induction as generalizing s with
  | nil => exact Option.some.inj h ▸ hs
  | cons a as ih =>
      obtain ⟨u, hu, hr⟩ := run_cons_eq_some.mp h
      exact ih (hstep s a u hs hC.1 hu) (hC.2 u hu) hr

theorem Along.and {C D : State → Action → Prop} {s : State} {as : List Action}
    (hC : Along step C s as) (hD : Along step D s as) :
    Along step (fun s a => C s a ∧ D s a) s as := by
  induction as generalizing s with
  | nil => trivial
  | cons a as ih => exact ⟨⟨hC.1, hD.1⟩, fun t ht => ih (hC.2 t ht) (hD.2 t ht)⟩

theorem along_true (s : State) (as : List Action) : Along step (fun _ _ => True) s as := by
  induction as generalizing s with
  | nil => trivial
  | cons a as ih => exact ⟨trivial, fun t _ => ih t⟩

theorem along_of_forall {C : Action → Prop} {s : State} {as : List Action} (h : ∀ a ∈ as, C a) :
    Along step (fun _ a => C a) s as := by
  induction as generalizing s with
  | nil => trivial
  | cons a as ih =>
      exact ⟨h a List.mem_cons_self, fun t _ => ih (fun b hb => h b (List.mem_cons_of_mem a hb))⟩

theorem along_append {C : State → Action → Prop} {s : State} {as bs : List Action}
    (h : Along step C s (as ++ bs)) : Along step C s as ∧ ∀ t, run step s as = some t → Along step C t bs := by
  induction as generalizing s with
  | nil => exact ⟨trivial, fun t ht => Option.some.inj ht ▸ h⟩
  | cons a as ih =>
      refine ⟨⟨h.1, fun t ht => (ih (h.2 t ht)).1⟩, fun u hu => ?_⟩
      obtain ⟨t, ht, hr⟩ := run_cons_eq_some.mp hu
      exact (ih (h.2 t ht)).2 u hr

theorem run_invariant {P : State → Prop}
    (hstep : ∀ s a t, P s → step s a = some t → P t)
    {s t : State} {as : List Action} (hs : P s) (h : run step s as = some t) : P t :=
  along_invariant (C := fun _ _ => True) (fun s a t hp _ => hstep s a t hp) hs (along_true s as) h

theorem run_total {P : State → Prop} (hstep : ∀ s a, P s → ∃ t, step s a = some t ∧ P t)
    {s : State} (hs : P s) (as : List Action) : ∃ t, run step s as = some t ∧ P t := by
  induction as generalizing s with
  | nil => exact ⟨s, rfl, hs⟩
  | cons a as ih =>
      obtain ⟨t, ht, hp⟩ := hstep s a hs
      obtain ⟨u, hu, hpu⟩ := ih hp
      exact ⟨u, run_cons_eq_some.mpr ⟨t, ht, hu⟩, hpu⟩

/-- A condition that can be read off the final state of a run holds along it. -/
theorem along_of_run {P : State → Prop} {D C : State → Action → Prop} {u : State}
    (hstep : ∀ s a t, P s → D s a → step s a = some t → P t)
    (hC : ∀ s a t as, P s → D s a → step s a = some t → Along step D t as →
      run step t as = some u → C s a)
    {s : State} {as : List Action} (hs : P s) (hD : Along step D s as)
    (h : run step s as = some u) : Along step C s as := by
  induction as generalizing s with
  | nil => trivial
  | cons a as ih =>
      obtain ⟨t, ht, hr⟩ := run_cons_eq_some.mp h
      refine ⟨hC s a t as hs hD.1 ht (hD.2 t ht) hr, ?_⟩
      intro t' ht'
      have he : t = t' := Option.some.inj (ht.symm.trans ht')
      subst he
      exact ih (hstep s a t hs hD.1 ht) (hD.2 t ht) hr

theorem Along.mono {C D : State → Action → Prop} {P : State → Prop}
    (hstep : ∀ s a t, P s → C s a → step s a = some t → P t) (h : ∀ s a, P s → C s a → D s a)
    {s : State} {as : List Action} (hs : P s) (hC : Along step C s as) : Along step D s as := by
  induction as generalizing s with
  | nil => trivial
  | cons a as ih =>
      exact ⟨h s a hs hC.1, fun t ht => ih (hstep s a t hs hC.1 ht) (hC.2 t ht)⟩

/-- A property that a step keeps exactly when it meets a condition holds in
every state of a run exactly when all steps meet the condition. -/
theorem along_and_final_iff {P Q : State → Prop} {C : State → Action → Prop}
    (hstep : ∀ s a t, P s → step s a = some t → P t)
    (hnext : ∀ s a t, P s → Q s → step s a = some t → (Q t ↔ C s a))
    {s u : State} {as : List Action} (hs : P s) (hq : Q s) (h : run step s as = some u) :
    Along step (fun s _ => Q s) s as ∧ Q u ↔ Along step C s as := by
  induction as generalizing s with
  | nil =>
      obtain rfl := Option.some.inj h
      exact ⟨fun _ => trivial, fun _ => ⟨trivial, hq⟩⟩
  | cons a as ih =>
      obtain ⟨t, ht, hr⟩ := run_cons_eq_some.mp h
      rw [along_cons_of_some ht, along_cons_of_some ht, ← hnext s a t hs hq ht]
      constructor
      · rintro ⟨⟨_, hal⟩, hu⟩
        have hqt : Q t := by
          cases as with
          | nil => exact Option.some.inj hr ▸ hu
          | cons => exact hal.1
        exact ⟨hqt, (ih (hstep s a t hs ht) hqt hr).mp ⟨hal, hu⟩⟩
      · rintro ⟨hqt, hal⟩
        obtain ⟨hal, hu⟩ := (ih (hstep s a t hs ht) hqt hr).mpr hal
        exact ⟨⟨hq, hal⟩, hu⟩

/-- Forward simulation: what a step of one system does, the other can do on the same action. -/
theorem run_simulation {State' : Type} {step' : State' → Action → Option State'} {R : State → State' → Prop}
    {C : Action → Prop}
    (hstep : ∀ s s' a t, R s s' → C a → step s a = some t → ∃ t', step' s' a = some t' ∧ R t t')
    {s t : State} {s' : State'} {as : List Action} (hs : R s s') (hC : ∀ a ∈ as, C a)
    (h : run step s as = some t) : ∃ t', run step' s' as = some t' ∧ R t t' := by
  induction as generalizing s s' with
  | nil => exact ⟨s', rfl, Option.some.inj h ▸ hs⟩
  | cons a as ih =>
      obtain ⟨u, hu, hr⟩ := run_cons_eq_some.mp h
      obtain ⟨u', hu', hR⟩ := hstep s s' a u hs (hC a List.mem_cons_self) hu
      obtain ⟨t', ht', hT⟩ := ih hR (fun b hb => hC b (List.mem_cons_of_mem a hb)) hr
      exact ⟨t', run_cons_eq_some.mpr ⟨u', hu', ht'⟩, hT⟩

/-- Two runs stay alike when one of them leaves out actions that keep its state alike. -/
theorem run_filter {R : State → State → Prop} {keep : Action → Prop} [DecidablePred keep]
    (hkeep : ∀ s s' a t, R s s' → keep a → step s a = some t → ∃ t', step s' a = some t' ∧ R t t')
    (hdrop : ∀ s s' a t, R s s' → ¬keep a → step s a = some t → R t s')
    {s s' t : State} {as : List Action} (hs : R s s') (h : run step s as = some t) :
    ∃ t', run step s' (as.filter (fun a => keep a)) = some t' ∧ R t t' := by
  induction as generalizing s s' with
  | nil => exact ⟨s', rfl, Option.some.inj h ▸ hs⟩
  | cons a as ih =>
      obtain ⟨u, hu, hr⟩ := run_cons_eq_some.mp h
      by_cases ha : keep a
      · obtain ⟨u', hu', hR⟩ := hkeep s s' a u hs ha hu
        obtain ⟨t', ht', hT⟩ := ih hR hr
        rw [List.filter_cons, if_pos (decide_eq_true ha)]
        exact ⟨t', run_cons_eq_some.mpr ⟨u', hu', ht'⟩, hT⟩
      · rw [List.filter_cons, if_neg (by simpa using ha)]
        exact ih (hdrop s s' a u hs ha hu) hr

/-- Runs whose states look the same at the start look the same at the end, if every step reads
no more of a state than that. -/
theorem run_map {View : Type} {view : State → View}
    (hstep : ∀ s t a, view s = view t → (step s a).map view = (step t a).map view)
    {s t : State} (hs : view s = view t) (as : List Action) :
    (run step s as).map view = (run step t as).map view := by
  induction as generalizing s t with
  | nil => exact congrArg some hs
  | cons a as ih =>
      have h := hstep s t a hs
      rw [run, run]
      cases hsa : step s a with
      | none =>
          rw [hsa] at h
          rw [Option.map_eq_none_iff.mp h.symm]
      | some u =>
          rw [hsa] at h
          obtain ⟨v, hv, huv⟩ := Option.map_eq_some_iff.mp h.symm
          rw [hv]
          exact ih huv.symm

end Blockchecks.Runs
