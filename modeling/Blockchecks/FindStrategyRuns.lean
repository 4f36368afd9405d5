import Blockchecks.FindStrategy

namespace Blockchecks.FindStrategyRuns

open FindStrategy OrderedDict Results Runs StrategyText Taps

theorem mergeRow_mem {best : Dict String Entry} {e f : Entry} {k : String}
    (h : (mergeRow best e).get? k = some f) : f = e ∨ best.get? k = some f := by
  have hset : (best.set e.row.strategy e).get? k = some f → f = e ∨ best.get? k = some f := by
    intro hset
    rw [Dict.get?_set] at hset
    split at hset
    · exact Or.inl (Option.some.inj hset).symm
    · exact Or.inr hset
  simp only [mergeRow] at h
  split at h
  · exact Or.inr h
  · split at h
    · exact hset h
    · split at h
      · exact hset h
      · split at h
        · exact hset h
        · exact Or.inr h

theorem foldl_mergeRow_mem {rows : List Entry} {best : Dict String Entry} {f : Entry} {k : String}
    (h : (rows.foldl mergeRow best).get? k = some f) : f ∈ rows ∨ best.get? k = some f := by
  induction rows generalizing best with
  | nil => exact Or.inr h
  | cons e rows ih =>
      rcases ih h with hmem | hbest
      · exact Or.inl (List.mem_cons_of_mem e hmem)
      · rcases mergeRow_mem hbest with rfl | hprev
        · exact Or.inl List.mem_cons_self
        · exact Or.inr hprev

/-- What a request answers with, it has recorded. -/
theorem mem_of_mem_mergeTopStrategies {rows : List Entry} {limit : Nat} {f : Entry}
    (h : f ∈ mergeTopStrategies rows limit) : f ∈ rows := by
  have hsorted := List.mem_of_mem_take h
  rw [List.mem_insertionSort] at hsorted
  obtain ⟨k, hk⟩ := (Dict.mem_values_iff _ f).mp hsorted
  rcases foldl_mergeRow_mem hk with hmem | hempty
  · exact hmem
  · cases hempty

variable {Request : Type} {domain : Request → String} {s t : State Request} {r : Request}

/-- A method is called only under taps for the domain of its caller, and a
request takes its tap off when it is the outermost. -/
def Orderly (domain : Request → String) (s : State Request) : Action Request → Prop
  | .call r m => ∀ q ∈ s.methods.current m, domain q = domain r
  | .complete r | .wake r | .fail r => ∀ m, (s.methods.current m).head? = some r
  | _ => True

structure Inv (domain : Request → String) (s : State Request) : Prop where
  nested : ∃ stack, Nested s.methods stack ∧ ∀ r, r ∈ stack ↔ (s.phase r).tapped = true
  calls : ∀ call ∈ s.calls, ∀ q ∈ call.taps, domain q = domain call.caller
  sinks : ∀ r, ∀ e ∈ s.sink r, e.PassOn (domain r)
  tops : ∀ r rows, s.top r = some rows → ∀ e ∈ rows, e.PassOn (domain r)

theorem start_inv : Inv domain start := by
  refine ⟨⟨[], nested_nil, ?_⟩, ?_, ?_, ?_⟩
  · intro r
    exact iff_of_false List.not_mem_nil Bool.false_ne_true
  · intro call hcall
    cases hcall
  · intro r e he
    cases he
  · intro r rows hrows
    cases hrows

theorem Inv.methods_original (h : Inv domain s) (hdone : ∀ r, (s.phase r).tapped = false)
    (m : Method) : s.methods.current m = [] := by
  obtain ⟨stack, hnested, hstack⟩ := h.nested
  rw [hnested.current]
  apply List.eq_nil_iff_forall_not_mem.mpr
  intro r hr
  have htapped := (hstack r).mp hr
  rw [hdone r] at htapped
  cases htapped

/-- The lock and the bridge workers play no part. -/
theorem Inv.lock (h : Inv domain s) (holder : Option Request) (working : Request → Bool) :
    Inv domain { s with holder := holder, working := working } :=
  ⟨h.nested, h.calls, h.sinks, h.tops⟩

theorem Inv.call (h : Inv domain s) {m : Method}
    (hC : ∀ q ∈ s.methods.current m, domain q = domain r) :
    Inv domain { s with calls := ⟨r, s.methods.current m⟩ :: s.calls } := by
  refine ⟨h.nested, ?_, h.sinks, h.tops⟩
  intro call hcall
  rcases List.mem_cons.mp hcall with rfl | hold
  · exact hC
  · exact h.calls call hold

theorem Inv.eraseCall (h : Inv domain s) (i : Nat) :
    Inv domain { s with calls := s.calls.eraseIdx i } :=
  ⟨h.nested, fun call hcall => h.calls call (List.mem_of_mem_eraseIdx hcall), h.sinks, h.tops⟩

variable [DecidableEq Request]

theorem Inv.unlock (h : Inv domain s) (r : Request) : Inv domain (s.unlock r) := h.lock _ _

theorem Inv.setWorking (h : Inv domain s) (r : Request) (b : Bool) : Inv domain (s.setWorking r b) :=
  h.lock _ _

theorem Inv.record (h : Inv domain s) {taps : List Request} {rows : List Entry}
    (hrows : ∀ q ∈ taps, ∀ e ∈ rows, e.PassOn (domain q)) : Inv domain (s.record taps rows) := by
  refine ⟨h.nested, h.calls, ?_, h.tops⟩
  intro q e he
  simp only [State.record] at he
  split at he
  next hq =>
    rcases List.mem_append.mp he with hold | hnew
    · exact h.sinks q e hold
    · exact hrows q hq e hnew
  next => exact h.sinks q e he

theorem tapped_goto {p : Phase} (hp : p.tapped = (s.phase r).tapped) (q : Request) :
    ((s.goto r p).phase q).tapped = (s.phase q).tapped := by
  rw [State.phase_goto]
  by_cases hq : q = r
  · rw [hq, Function.update_self, hp]
  · rw [Function.update_of_ne hq]

theorem Inv.goto (h : Inv domain s) {p : Phase} (hp : p.tapped = (s.phase r).tapped) :
    Inv domain (s.goto r p) := by
  obtain ⟨stack, hnested, hstack⟩ := h.nested
  refine ⟨⟨stack, hnested, ?_⟩, h.calls, h.sinks, h.tops⟩
  intro q
  rw [tapped_goto hp, hstack q]

theorem Inv.tap (h : Inv domain s) (hr : s.phase r = .arrived) :
    Inv domain ({ s with methods := s.methods.tap r }.goto r .waiting) := by
  obtain ⟨stack, hnested, hstack⟩ := h.nested
  have hnew : r ∉ stack := by
    rw [hstack r, hr]
    exact Bool.false_ne_true
  refine ⟨⟨r :: stack, hnested.tap hnew, ?_⟩, h.calls, h.sinks, h.tops⟩
  intro q
  rw [List.mem_cons, hstack q]
  by_cases hq : q = r
  · simp [hq, Phase.tapped]
  · simp [hq]

theorem Inv.finish (h : Inv domain s)
    (hC : ∀ m, (s.methods.current m).head? = some r) {answer : Option (List Entry)}
    (hanswer : ∀ rows, answer = some rows → ∀ e ∈ rows, e.PassOn (domain r)) :
    Inv domain (s.finish r answer) := by
  obtain ⟨stack, hnested, hstack⟩ := h.nested
  have hhead : stack.head? = some r := by
    rw [← hnested.current .testTcp]
    exact hC .testTcp
  obtain ⟨below, rfl⟩ := List.head?_eq_some_iff.mp hhead
  have hkept : ∀ q, ((s.finish r answer).phase q).tapped = true ↔ q ≠ r ∧ (s.phase q).tapped = true := by
    intro q
    by_cases hq : q = r
    · simp [hq, Phase.tapped]
    · simp [hq]
  refine ⟨⟨below, hnested.restore, ?_⟩, h.calls, h.sinks, ?_⟩
  · intro q
    rw [hkept q, ← hstack q, List.mem_cons]
    have hfresh : r ∉ below := (List.nodup_cons.mp hnested.nodup).1
    constructor
    · intro hq
      exact ⟨fun he => hfresh (he ▸ hq), Or.inr hq⟩
    · rintro ⟨hne, hq⟩
      exact hq.resolve_left hne
  · intro q rows hrows
    rw [State.top_finish] at hrows
    by_cases hq : q = r
    · rw [hq, Function.update_self] at hrows
      rw [hq]
      exact hanswer rows hrows
    · rw [Function.update_of_ne hq] at hrows
      exact h.tops q rows hrows

omit [DecidableEq Request] in
theorem Inv.answer (h : Inv domain s) (r : Request) :
    ∀ rows, some (mergeTopStrategies (s.sink r)) = some rows → ∀ e ∈ rows, e.PassOn (domain r) := by
  rintro rows ⟨⟩ e he
  exact h.sinks r e (mem_of_mem_mergeTopStrategies he)

theorem successes_passOn {results : List TcpTestResult} {name : String}
    (h : ∀ result ∈ results, result.domain = name) : ∀ e ∈ successes results, e.PassOn name := by
  intro e he
  obtain ⟨result, hresult, rfl⟩ := List.mem_map.mp he
  obtain ⟨hmem, hsuccess⟩ := List.mem_filter.mp hresult
  exact ⟨hsuccess, h result hmem⟩

theorem step_inv {a : Action Request} (h : Inv domain s) (hC : Orderly domain s a)
    (hstep : step domain s a = some t) : Inv domain t := by
  cases a with
  | tap r =>
      obtain ⟨hr, heq⟩ := Option.ite_none_right_eq_some.mp hstep
      cases heq
      exact h.tap hr
  | acquire r =>
      obtain ⟨⟨hr, hfree⟩, heq⟩ := Option.ite_none_right_eq_some.mp hstep
      cases heq
      have hsame : Phase.probing.tapped = (s.phase r).tapped := by
        rw [hr]
        rfl
      exact ((h.lock (some r) s.working).goto hsame).setWorking r true
  | call r m =>
      obtain ⟨hr, heq⟩ := Option.ite_none_right_eq_some.mp hstep
      cases heq
      exact h.call hC
  | deliver i results =>
      rw [step] at hstep
      split at hstep
      · cases hstep
      next call hcall =>
        obtain ⟨hdomain, heq⟩ := Option.ite_none_right_eq_some.mp hstep
        cases heq
        refine (h.eraseCall i).record ?_
        intro q hq
        rw [h.calls call (List.mem_of_getElem? hcall) q hq]
        exact successes_passOn hdomain
  | drop i =>
      obtain ⟨hi, heq⟩ := Option.ite_none_right_eq_some.mp hstep
      cases heq
      exact h.eraseCall i
  | markDone r item =>
      obtain ⟨hr, heq⟩ := Option.ite_none_right_eq_some.mp hstep
      cases heq
      refine h.record ?_
      intro q hq e he
      rw [List.mem_singleton.mp hq, List.mem_singleton.mp he]
      rfl
  | workersDone r =>
      obtain ⟨⟨hr, hcalls⟩, heq⟩ := Option.ite_none_right_eq_some.mp hstep
      cases heq
      exact h.setWorking r false
  | complete r =>
      obtain ⟨⟨hr, hdone⟩, heq⟩ := Option.ite_none_right_eq_some.mp hstep
      cases heq
      exact (h.unlock r).finish hC (h.answer r)
  | timeout r =>
      obtain ⟨hr, heq⟩ := Option.ite_none_right_eq_some.mp hstep
      cases heq
      have hsame : Phase.timedOut.tapped = (s.phase r).tapped := by
        rw [hr]
        rfl
      exact (h.unlock r).goto hsame
  | wake r =>
      obtain ⟨hr, heq⟩ := Option.ite_none_right_eq_some.mp hstep
      cases heq
      exact h.finish hC (h.answer r)
  | fail r =>
      obtain ⟨hr, heq⟩ := Option.ite_none_right_eq_some.mp hstep
      cases heq
      refine (h.unlock r).finish hC ?_
      rintro rows ⟨⟩

/-- Any number of requests, ended in any way: where every call goes through
taps for its own domain only and a tap comes off only as the outermost, every
answer has passed on its own domain, and when no request is under way the
methods of the runner are the original ones. -/
theorem requests_isolated {actions : List (Action Request)}
    (hrun : run (step domain) start actions = some s)
    (hC : Along (step domain) (Orderly domain) start actions) :
    (∀ r rows, s.top r = some rows → ∀ e ∈ rows, e.PassOn (domain r)) ∧
      ((∀ r, (s.phase r).tapped = false) → ∀ m, s.methods.current m = []) := by
  have hinv : Inv domain s := along_invariant (fun _ _ _ => step_inv) start_inv hC hrun
  exact ⟨hinv.tops, hinv.methods_original⟩

instance fintypeMethod : Fintype Method where
  elems := {.testTcp, .runProbeBatch, .testTcpDomains}
  complete m := by cases m <;> decide

instance decidableOrderly (domain : Request → String) (s : State Request) :
    (a : Action Request) → Decidable (Orderly domain s a)
  | .call r m => inferInstanceAs (Decidable (∀ q ∈ s.methods.current m, domain q = domain r))
  | .complete r | .wake r | .fail r =>
      inferInstanceAs (Decidable (∀ m, (s.methods.current m).head? = some r))
  | .tap _ | .acquire _ | .deliver _ _ | .drop _ | .markDone _ _ | .workersDone _ | .timeout _ =>
      isTrue trivial

instance decidablePassOn (name : String) : (e : Entry) → Decidable (e.PassOn name)
  | .probe result => inferInstanceAs (Decidable (result.success = true ∧ result.domain = name))
  | .job _ probed => inferInstanceAs (Decidable (probed = name))

def twoDomains (r : Bool) : String := if r then "b.example" else "a.example"

def firstPass (r : Bool) : TcpTestResult where
  item := { label := "fake", strategy := "fake:blob=stun:repeats=6" }
  domain := twoDomains r
  success := true
  httpCode := 200
  latencyMs := 120

/-- The batch of one request under the lock, with one success. -/
def probes (r : Bool) : List (Action Bool) :=
  [.call r .runProbeBatch, .deliver 0 [firstPass r], .workersDone r]

def oneAfterTheOther : List (Action Bool) :=
  [.tap false, .acquire false] ++ probes false ++ [.complete false, .tap true, .acquire true] ++
    probes true ++ [.timeout true, .wake true]

def ended (s : State Bool) : Prop := ∀ r, s.phase r = .finished

instance decidableEnded (s : State Bool) : Decidable (ended s) :=
  inferInstanceAs (Decidable (∀ _, _))

theorem oneAfterTheOther_isolated : ∃ s,
    run (step twoDomains) start oneAfterTheOther = some s ∧ ended s ∧
      s.top true = some [.probe (firstPass true)] ∧
      (∀ r rows, s.top r = some rows → ∀ e ∈ rows, e.PassOn (twoDomains r)) ∧
      ∀ m, s.methods.current m = [] := by
  have hend : (run (step twoDomains) start oneAfterTheOther).any
      (fun s => decide (ended s ∧ s.top true = some [.probe (firstPass true)])) = true := by
    decide +kernel
  have halong : Along (step twoDomains) (Orderly twoDomains) start oneAfterTheOther := by
    decide +kernel
  obtain ⟨s, hrun, hs⟩ := (Option.any_eq_true _ _).mp hend
  obtain ⟨hended, htop⟩ := of_decide_eq_true hs
  obtain ⟨hpass, hmethods⟩ := requests_isolated hrun halong
  exact ⟨s, hrun, hended, htop, hpass, hmethods (fun r => by rw [hended r]; rfl)⟩

/-- The second request taps while the first is at work and ends after it. -/
def overlapping : List (Action Bool) :=
  [.tap false, .acquire false, .tap true] ++ probes false ++ [.complete false, .acquire true] ++
    [.workersDone true, .complete true]

theorem overlapping_mixed : ∃ s,
    run (step twoDomains) start overlapping = some s ∧ ended s ∧
      (∃ rows, s.top true = some rows ∧ ∃ e ∈ rows, ¬ e.PassOn (twoDomains true)) ∧
      ∀ m, s.methods.current m ≠ [] := by
  have hend : (run (step twoDomains) start overlapping).any
      (fun s => decide (ended s ∧ s.top true = some [.probe (firstPass false)] ∧
        ∀ m, s.methods.current m ≠ [])) = true := by
    decide +kernel
  obtain ⟨s, hrun, hs⟩ := (Option.any_eq_true _ _).mp hend
  obtain ⟨hended, htop, hmethods⟩ := of_decide_eq_true hs
  refine ⟨s, hrun, hended, ⟨_, htop, _, List.mem_singleton_self _, ?_⟩, hmethods⟩
  decide

end Blockchecks.FindStrategyRuns
