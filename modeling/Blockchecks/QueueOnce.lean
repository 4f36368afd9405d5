import Blockchecks.Runs
import Blockchecks.QueuePop
import Blockchecks.QueueMark

namespace Blockchecks.QueueOnce

open Runs OrderedDict ScanWeights StrategyText AdaptiveQueue AdaptiveJobQueue QueueInvariant QueuePop
  QueueMark

/-- One queue shared by workers: the jobs each of them has popped and not yet
marked done, and every key a pop has returned, latest first. -/
structure Shared where
  queue : AdaptiveJobQueue
  inFlight : List (Nat × AdaptiveJob) := []
  handed : List Key := []

inductive Action where
  | pop (worker : Nat) (excludeDomains : Finset String) (rng : Rng)
  | markDone (worker : Nat) (job : AdaptiveJob) (passed : Bool)
  | exclude (domain : String)

def step (s : Shared) : Action → Option Shared
  | .pop worker excludeDomains rng => (s.queue.pop excludeDomains rng).map (fun
      | (none, q) => { s with queue := q }
      | (some job, q) => ⟨q, (worker, job) :: s.inFlight, job.key :: s.handed⟩)
  | .markDone worker job passed =>
      if (worker, job) ∈ s.inFlight then some { s with
        queue := (s.queue.markDone job passed).2
        inFlight := s.inFlight.erase (worker, job) }
      else none
  | .exclude domain => some { s with queue := s.queue.excludeDomain domain }

/-- No job in flight sits on a domain that this pass is fanned out to. -/
def Apart (s : Shared) : Action → Prop
  | .markDone _ job passed => passed = true → ∀ p ∈ s.inFlight,
      p.2.item.label = job.item.label → p.2.domain ∉ fanoutDomains s.queue job
  | _ => True

instance (s : Shared) : (a : Action) → Decidable (Apart s a)
  | .pop .. => isTrue trivial
  | .markDone _ job passed => inferInstanceAs (Decidable (passed = true → ∀ p ∈ s.inFlight,
      p.2.item.label = job.item.label → p.2.domain ∉ fanoutDomains s.queue job))
  | .exclude _ => isTrue trivial

structure Once (s : Shared) : Prop where
  valid : Valid s.queue
  nodup : s.handed.Nodup
  taken : ∀ k ∈ s.handed, k ∉ s.queue.pending.keys
  open_or_done : ∀ k ∈ s.handed, k ∈ s.queue.done ∨ ∃ p ∈ s.inFlight, p.2.key = k

theorem pop_once {s t : Shared} {worker : Nat} {excludeDomains : Finset String} {rng : Rng}
    (h : Once s) (ht : step s (.pop worker excludeDomains rng) = some t) : Once t := by
  obtain ⟨r, q, hpop, hv, hspec⟩ := pop_spec h.valid excludeDomains rng
  have hsub : ∀ k, k ∈ q.pending.keys → k ∈ s.queue.pending.keys := by
    intro k hk
    obtain ⟨job, hg⟩ := (Dict.mem_keys_iff _ _).mp hk
    exact (Dict.mem_keys_iff _ _).mpr ⟨job, hspec.subset k job hg⟩
  simp only [step, hpop, Option.map_some, Option.some.injEq] at ht
  cases r with
  | none =>
      subst ht
      exact ⟨hv, h.nodup, fun k hk hp => h.taken k hk (hsub k hp),
        fun k hk => (h.open_or_done k hk).imp_left (@hspec.done_subset k)⟩
  | some job =>
      subst ht
      obtain ⟨hg, _, hgone⟩ := hspec.taken job rfl
      have hp : job.key ∈ s.queue.pending.keys := (Dict.mem_keys_iff _ _).mpr ⟨job, hg⟩
      refine ⟨hv, List.nodup_cons.mpr ⟨fun hm => h.taken _ hm hp, h.nodup⟩, ?_, ?_⟩
      · intro k hk
        rcases List.mem_cons.mp hk with rfl | hk
        · exact (Dict.get?_eq_none_iff _ _).mp hgone
        · exact fun hp => h.taken k hk (hsub k hp)
      · intro k hk
        rcases List.mem_cons.mp hk with rfl | hk
        · exact Or.inr ⟨(worker, job), List.mem_cons_self, rfl⟩
        · rcases h.open_or_done k hk with hd | ⟨p, hp, hpk⟩
          · exact Or.inl (hspec.done_subset hd)
          · exact Or.inr ⟨p, List.mem_cons_of_mem _ hp, hpk⟩

theorem markDone_once {s t : Shared} {worker : Nat} {job : AdaptiveJob} {passed : Bool}
    (h : Once s) (hapart : Apart s (.markDone worker job passed))
    (ht : step s (.markDone worker job passed) = some t) : Once t := by
  have hspec := markDone_spec s.queue job passed
  simp only [step] at ht
  split at ht
  next =>
    obtain rfl := Option.some.inj ht
    refine ⟨markDone_valid h.valid job passed, h.nodup, ?_, ?_⟩
    · intro k hk hp
      obtain ⟨j, hg⟩ := (Dict.mem_keys_iff _ _).mp hp
      obtain ⟨_, hold | ⟨hpass, _, hlabel, hdom, hnd⟩⟩ := hspec.new k j hg
      · exact h.taken k hk ((Dict.mem_keys_iff _ _).mpr ⟨j, hold⟩)
      · obtain ⟨p, hfl, rfl⟩ := (h.open_or_done k hk).resolve_left hnd
        exact hapart hpass p hfl hlabel hdom
    · intro k hk
      dsimp only
      rw [hspec.done, Finset.mem_insert]
      rcases h.open_or_done k hk with hd | ⟨p, hp, rfl⟩
      · exact Or.inl (Or.inr hd)
      · by_cases he : p = (worker, job)
        · exact Or.inl (Or.inl (congrArg (fun p => p.2.key) he))
        · exact Or.inr ⟨p, (List.mem_erase_of_ne he).mpr hp, rfl⟩
  next => cases ht

theorem step_once {s t : Shared} {a : Action} (h : Once s) (hapart : Apart s a)
    (ht : step s a = some t) : Once t := by
  cases a with
  | pop worker excludeDomains rng => exact pop_once h ht
  | markDone worker job passed => exact markDone_once h hapart ht
  | exclude domain =>
      obtain rfl := Option.some.inj ht
      exact ⟨h.valid.congr rfl rfl rfl rfl, h.nodup, h.taken, h.open_or_done⟩

/-- No key is popped twice in a run in which no pass is fanned out to a domain
where the same strategy is still in flight. -/
theorem handed_nodup_of_apart (items : List StrategyItem) (domains : List String)
    (weights : Weights) (epsilon : ℚ) (skipDomains : Finset String) (skipKeys : Finset Key)
    (schedule : List Action) (s : Shared)
    (hrun : run step ⟨build items domains weights epsilon skipDomains skipKeys, [], []⟩ schedule =
      some s)
    (hapart : Along step Apart ⟨build items domains weights epsilon skipDomains skipKeys, [], []⟩
      schedule) : s.handed.Nodup := by
  have hinit : Once ⟨build items domains weights epsilon skipDomains skipKeys, [], []⟩ :=
    ⟨build_valid items domains weights epsilon skipDomains skipKeys, List.nodup_nil,
      by simp, by simp⟩
  exact (along_invariant (fun _ _ _ hs ha ht => step_once hs ha ht) hinit hapart hrun).nodup

def twoSiblings : Shared := ⟨build [fakeItem] ["a.example", "b.example"] {} 0 ∅ ∅, [], []⟩

/-- Two workers hold the two domains; the first passes and is fanned out to the
second domain, which the next pop returns again. -/
def siblingPass : List Action :=
  [.pop 0 ∅ .least, .pop 1 {"a.example"} .least, .markDone 0 (.fromItem fakeItem "a.example") true,
    .pop 0 {"b.example"} .least]

theorem siblingPass_handed_twice : ¬ ∀ items domains weights epsilon skipDomains skipKeys schedule s,
    run step ⟨build items domains weights epsilon skipDomains skipKeys, [], []⟩ schedule = some s →
      s.handed.Nodup := by
  intro h
  have hrun : (run step twoSiblings siblingPass).map Shared.handed =
      some [("std_fake_1", "b.example"), ("std_fake_1", "b.example"), ("std_fake_1", "a.example")] := by
    decide +kernel
  obtain ⟨s, hs, hh⟩ := Option.map_eq_some_iff.mp hrun
  have hn := h _ _ _ _ _ _ siblingPass s hs
  rw [hh] at hn
  revert hn
  decide

def siblingPassAlone : List Action :=
  [.pop 0 ∅ .least, .markDone 0 (.fromItem fakeItem "a.example") true, .pop 1 ∅ .least,
    .markDone 1 (.fromItem fakeItem "b.example") true, .pop 0 ∅ .least]

theorem handed_nodup_siblingPassAlone : ∃ s, run step twoSiblings siblingPassAlone = some s ∧
    s.handed = [("std_fake_1", "b.example"), ("std_fake_1", "a.example")] ∧ s.handed.Nodup := by
  have hrun : (run step twoSiblings siblingPassAlone).map Shared.handed =
      some [("std_fake_1", "b.example"), ("std_fake_1", "a.example")] := by decide +kernel
  obtain ⟨s, hs, hh⟩ := Option.map_eq_some_iff.mp hrun
  have hapart : Along step Apart twoSiblings siblingPassAlone := by decide +kernel
  exact ⟨s, hs, hh, handed_nodup_of_apart _ _ _ _ _ _ siblingPassAlone s hs hapart⟩

end Blockchecks.QueueOnce
