import Blockchecks.BridgeSteps
import Mathlib.Data.List.Nodup

namespace Blockchecks.BridgeFence

open Runs BridgeIpc BridgeSteps

def Announced (b : Bridge) (r : Nat) : Prop :=
  r ∈ b.published.map Prod.snd ∧ (r = b.current.gen → b.next = .finished)

/-- What the payload files hold at each point of a publication. Until its
first replace they hold a complete earlier pair, and from there to the last
replace strategy.gen carries a generation that is not yet announced. -/
def Payload (b : Bridge) : PublishStep → Prop
  | .finished | .truncateEvents | .replaceGen => ∀ g, b.files.strategyGen = some g →
      ∃ i, b.files.strategyId = some i ∧ (i, g) ∈ b.published
  | .replaceCmd | .replaceId => b.files.strategyGen = some b.current.gen
  | .replaceReady => b.files.strategyGen = some b.current.gen ∧
      b.files.strategyId = some b.current.strategyId

def ReaderHolds (b : Bridge) : Reader → Prop
  | .idle => True
  | .haveReady r => Announced b r
  | .haveGen g idThen => ∃ i, idThen = some i ∧ (i, g) ∈ b.published ∧ b.files.strategyId ≠ none

structure Ordered (b : Bridge) : Prop where
  gens : (b.published.map Prod.snd).Nodup
  current : b.next ≠ .finished → (b.current.strategyId, b.current.gen) ∈ b.published
  payload : Payload b b.next
  ready : ∀ r, b.files.strategyReady = some r → Announced b r
  reader : ReaderHolds b b.reader

theorem fresh_ordered : Ordered Bridge.fresh where
  gens := by simp [Bridge.fresh]
  current := by simp [Bridge.fresh]
  payload := by simp [Bridge.fresh, Payload, setup]
  ready := by simp [Bridge.fresh, setup]
  reader := trivial

theorem Announced.superseded {b : Bridge} {p : Publication} {r : Nat} (h : Announced b r)
    (hp : p.gen ∉ b.published.map Prod.snd) :
    Announced { b with current := p, next := .truncateEvents,
                       published := b.published ++ [(p.strategyId, p.gen)] } r := by
  refine ⟨by simpa using Or.inl h.1, ?_⟩
  rintro rfl
  exact absurd h.1 hp

theorem Announced.unfinished {b b' : Bridge} {r : Nat} (h : Announced b r)
    (hp : b'.published = b.published) (hc : b'.current = b.current) (hn : b.next ≠ .finished) :
    Announced b' r := by
  have hne : r ≠ b.current.gen := fun he => hn (h.2 he)
  rw [Announced, hp, hc]
  exact ⟨h.1, fun he => absurd he hne⟩

theorem ReaderHolds.unfinished {b b' : Bridge} {rd : Reader} (h : ReaderHolds b rd)
    (hp : b'.published = b.published) (hc : b'.current = b.current) (hn : b.next ≠ .finished)
    (hi : b.files.strategyId ≠ none → b'.files.strategyId ≠ none) : ReaderHolds b' rd := by
  cases rd with
  | idle => trivial
  | haveReady r => exact Announced.unfinished h hp hc hn
  | haveGen g idThen =>
      obtain ⟨i, he, hm, hs⟩ := h
      exact ⟨i, he, hp ▸ hm, hi hs⟩

theorem probe_ordered {b : Bridge} {p : Publication} (h : Ordered b) (hn : b.next = .finished)
    (hp : p.gen ∉ b.published.map Prod.snd) :
    Ordered { b with current := p, next := .truncateEvents,
                     published := b.published ++ [(p.strategyId, p.gen)] } where
  gens := by
    rw [List.map_append, List.nodup_append]
    refine ⟨h.gens, by simp, ?_⟩
    intro g hg g' hg' he
    rw [he] at hg
    exact hp (by simpa [List.mem_singleton.mp hg'] using hg)
  current := by simp
  payload := by
    have hpay := h.payload
    rw [hn] at hpay
    intro g hg
    obtain ⟨i, hi, hm⟩ := hpay g hg
    exact ⟨i, hi, List.mem_append_left _ hm⟩
  ready := fun r hr => (h.ready r hr).superseded hp
  reader := by
    have hr := h.reader
    cases hrd : b.reader with
    | idle => trivial
    | haveReady r => rw [hrd] at hr; exact Announced.superseded hr hp
    | haveGen g idThen =>
        rw [hrd] at hr
        obtain ⟨i, he, hm, hs⟩ := hr
        exact ⟨i, he, List.mem_append_left _ hm, hs⟩

theorem Ordered.unfinished {b b' : Bridge} (h : Ordered b) (hn : b.next ≠ .finished)
    (hp : b'.published = b.published) (hc : b'.current = b.current) (hrd : b'.reader = b.reader)
    (hi : b.files.strategyId ≠ none → b'.files.strategyId ≠ none) (hpay : Payload b' b'.next)
    (hready : ∀ r, b'.files.strategyReady = some r → Announced b' r) : Ordered b' where
  gens := hp ▸ h.gens
  current := by
    intro _
    rw [hc, hp]
    exact h.current hn
  payload := hpay
  ready := hready
  reader := by
    rw [hrd]
    exact h.reader.unfinished hp hc hn hi

theorem Announced.congr {b b' : Bridge} {r : Nat} (h : Announced b r)
    (hp : b'.published = b.published) (hc : b'.current = b.current) (hn : b'.next = b.next) :
    Announced b' r := by
  rw [Announced, hp, hc, hn]
  exact h

theorem Ordered.daemon {b b' : Bridge} (h : Ordered b) (hp : b'.published = b.published)
    (hc : b'.current = b.current) (hn : b'.next = b.next)
    (hi : b'.files.strategyId = b.files.strategyId)
    (hg : b'.files.strategyGen = b.files.strategyGen)
    (hr : b'.files.strategyReady = b.files.strategyReady)
    (hreader : ReaderHolds b' b'.reader) : Ordered b' where
  gens := hp ▸ h.gens
  current := by rw [hn, hc, hp]; exact h.current
  payload := by
    have hpay := h.payload
    rw [hn]
    cases hb : b.next <;> simp only [hb, Payload, hp, hc, hi, hg] at hpay ⊢ <;> exact hpay
  ready := by
    intro r he
    exact (h.ready r (hr ▸ he)).congr hp hc hn
  reader := hreader

/-- The fence at work: an announced generation that strategy.gen still holds
belongs to the pair the payload files hold at that moment. -/
theorem announced_payload {b : Bridge} (h : Ordered b) {r : Nat} (ha : Announced b r)
    (hg : b.files.strategyGen = some r) :
    ∃ i, b.files.strategyId = some i ∧ (i, r) ∈ b.published := by
  have hpay := h.payload
  have hcur (hf : b.files.strategyGen = some b.current.gen) (hn : b.next ≠ .finished) :
      ∃ i, b.files.strategyId = some i ∧ (i, r) ∈ b.published :=
    absurd (ha.2 (Option.some.inj (hg.symm.trans hf))) hn
  cases hn : b.next with
  | finished | truncateEvents | replaceGen => rw [hn] at hpay; exact hpay r hg
  | replaceCmd | replaceId => rw [hn] at hpay; exact hcur hpay (by simp [hn])
  | replaceReady => rw [hn] at hpay; exact hcur hpay.1 (by simp [hn])

theorem effect_ordered {b b' : Bridge} {a : Action} (h : Ordered b) (ha : Distinct b a)
    (he : Effect b a b') : Ordered b' := by
  have hpay := h.payload
  have hrd := h.reader
  have hready (hn : b.next ≠ .finished) {c : Bridge} (hp : c.published = b.published)
      (hc : c.current = b.current) (hf : c.files.strategyReady = b.files.strategyReady) (r : Nat)
      (hr : c.files.strategyReady = some r) : Announced c r :=
    (h.ready r (hf ▸ hr)).unfinished hp hc hn
  cases he with
  | probe hn => exact probe_ordered h hn ha
  | truncated hn =>
      have hf : b.next ≠ .finished := by simp [hn]
      rw [hn] at hpay
      exact h.unfinished hf rfl rfl rfl id hpay (hready hf rfl rfl rfl)
  | replacedGen hn =>
      have hf : b.next ≠ .finished := by simp [hn]
      refine h.unfinished hf rfl rfl rfl id ?_ (hready hf rfl rfl rfl)
      dsimp only
      split <;> rfl
  | replacedCmd hn =>
      have hf : b.next ≠ .finished := by simp [hn]
      rw [hn] at hpay
      exact h.unfinished hf rfl rfl rfl id hpay (hready hf rfl rfl rfl)
  | replacedId hn =>
      have hf : b.next ≠ .finished := by simp [hn]
      rw [hn] at hpay
      exact h.unfinished hf rfl rfl rfl (fun _ => by simp) ⟨hpay, rfl⟩ (hready hf rfl rfl rfl)
  | replacedReady hn =>
      have hf : b.next ≠ .finished := by simp [hn]
      have hm := h.current hf
      rw [hn] at hpay
      refine h.unfinished hf rfl rfl rfl id ?_ ?_
      · intro g hg
        have he : b.current.gen = g := Option.some.inj (hpay.1.symm.trans hg)
        exact ⟨b.current.strategyId, hpay.2, he ▸ hm⟩
      · intro r hr
        have he : b.current.gen = r := Option.some.inj hr
        exact ⟨List.mem_map.mpr ⟨_, hm, he⟩, fun _ => rfl⟩
  | ready hr hf => exact h.daemon rfl rfl rfl rfl rfl rfl (h.ready _ hf)
  | accepted hr hf =>
      rw [hr] at hrd
      obtain ⟨i, hi, hm⟩ := announced_payload h hrd hf
      exact h.daemon rfl rfl rfl rfl rfl rfl ⟨i, hi, hm, by simp [hi]⟩
  | notReady | fenced | noId | returned | openFails =>
      exact h.daemon rfl rfl rfl rfl rfl rfl trivial
  | scanPick hr | rstIn hr | retrans hr =>
      refine h.daemon rfl rfl rfl rfl rfl rfl ?_
      simp [scanPick, smartFallback, appendEvent, hr, ReaderHolds]

def Extends (b b' : Bridge) : Prop := b.published ⊆ b'.published ∧ b.returned ⊆ b'.returned

theorem Extends.refl (b : Bridge) : Extends b b := ⟨List.Subset.refl _, List.Subset.refl _⟩

theorem effect_extends {b b' : Bridge} {a : Action} (he : Effect b a b') : Extends b b' := by
  cases he with
  | probe => exact ⟨List.subset_append_left _ _, List.Subset.refl _⟩
  | returned => exact ⟨List.Subset.refl _, List.subset_append_left _ _⟩
  | truncated | replacedGen | replacedCmd | replacedId | replacedReady | notReady | ready | fenced
  | accepted | noId | openFails | scanPick | rstIn | retrans => exact Extends.refl _

theorem run_extends {b b' : Bridge} {schedule : List Action} (h : run step b schedule = some b') :
    Extends b b' := by
  refine run_invariant (P := Extends b) ?_ (Extends.refl b) h
  intro c a d hc hs
  have hd := effect_extends (step_effect hs)
  exact ⟨List.Subset.trans hc.1 hd.1, List.Subset.trans hc.2 hd.2⟩

theorem published_unique {b : Bridge} (h : Ordered b) {i j g : Nat}
    (hi : (i, g) ∈ b.published) (hj : (j, g) ∈ b.published) : i = j :=
  congrArg Prod.fst (List.inj_on_of_nodup_map h.gens hi hj rfl)

theorem stable_returns {b b' : Bridge} {a : Action} (h : Ordered b) (hstable : StableId b a)
    (hret : b.returned ⊆ b.published) (he : Effect b a b') : b'.returned ⊆ b'.published := by
  cases he with
  | probe => exact List.Subset.trans hret (List.subset_append_left _ _)
  | @returned g i idThen hr hf =>
      have hrd := h.reader
      rw [hr] at hrd
      obtain ⟨j, rfl, hm, _⟩ := hrd
      have hj : i = j := by simpa [StableId, hr, hf] using hstable
      exact List.append_subset.mpr ⟨hret, by simpa [hj] using hm⟩
  | truncated | replacedGen | replacedCmd | replacedId | replacedReady | notReady | ready | fenced
  | accepted | noId | openFails | scanPick | rstIn | retrans => exact hret

/-- Conversely a reader that returns a published pair read an unmoved strategy.id,
since the generation it accepted names one publication only. -/
theorem published_read_stable {b b' c : Bridge} {a : Action} {rest : List Action} (h : Ordered b)
    (he : Effect b a b') (hrun : run step b' rest = some c) (hc : Ordered c)
    (hret : c.returned ⊆ c.published) : StableId b a := by
  have hrd := h.reader
  cases he with
  | @returned g i idThen hr hf =>
      rw [hr] at hrd
      obtain ⟨j, rfl, hm, _⟩ := hrd
      have hext := run_extends hrun
      have hic : (i, g) ∈ c.published := hret (hext.2 (by simp))
      have hjc : (j, g) ∈ c.published := hext.1 hm
      simp [StableId, hr, hf, published_unique hc hic hjc]
  | noId hr hf =>
      rw [hr] at hrd
      obtain ⟨_, _, _, hne⟩ := hrd
      exact absurd hf hne
  | probe | truncated | replacedGen | replacedCmd | replacedId | replacedReady | notReady | ready
  | fenced | accepted | openFails | scanPick | rstIn | retrans => trivial

/-- For publications of distinct generations, every pair returned by a reader
was published exactly when no reader finds strategy.id changed between its
read of strategy.gen and its read of strategy.id. -/
theorem returned_published_iff_stable (schedule : List Action) (b : Bridge)
    (hrun : run step Bridge.fresh schedule = some b)
    (hgens : Along step Distinct Bridge.fresh schedule) :
    (∀ p ∈ b.returned, p ∈ b.published) ↔ Along step StableId Bridge.fresh schedule := by
  have hb : Ordered b :=
    along_invariant (fun _ _ _ h ha hs => effect_ordered h ha (step_effect hs)) fresh_ordered hgens hrun
  constructor
  · intro hret
    exact along_of_run (fun _ _ _ h ha hs => effect_ordered h ha (step_effect hs))
      (fun _ _ _ _ h _ hs _ hr => published_read_stable h (step_effect hs) hr hb hret) fresh_ordered hgens hrun
  · intro hstable
    have hP : Ordered b ∧ b.returned ⊆ b.published := by
      refine along_invariant (C := fun b a => Distinct b a ∧ StableId b a)
        (P := fun b => Ordered b ∧ b.returned ⊆ b.published) ?_
        ⟨fresh_ordered, List.Subset.refl _⟩ (hgens.and hstable) hrun
      intro c a d hc ha hs
      have he := step_effect hs
      exact ⟨effect_ordered hc.1 ha.1 he, stable_returns hc.1 ha.2 hc.2 he⟩
    exact hP.2

/-- A reader that passes the fence of generation 1 and opens strategy.id after
the second publication has replaced it. -/
def tornRead : List Action :=
  [.probe ⟨1, 1, none⟩, .fileOp, .fileOp, .fileOp, .fileOp, .readReady, .readGen,
    .probe ⟨2, 2, none⟩, .fileOp, .fileOp, .fileOp, .readId]

theorem tornRead_unpublished : ¬ ∀ schedule b, run step Bridge.fresh schedule = some b →
    Along step Distinct Bridge.fresh schedule → ∀ p ∈ b.returned, p ∈ b.published := by
  intro h
  obtain ⟨b, hb⟩ : ∃ b, run step Bridge.fresh tornRead = some b := ⟨_, rfl⟩
  have hp := h tornRead b hb (by decide) (2, 1)
  cases hb
  exact absurd (hp (by decide)) (by decide)

theorem returned_published_of_tornRead_prefix :
    ∃ b, run step Bridge.fresh (tornRead.take 10 ++ [.readId]) = some b ∧
      b.returned = [(1, 1)] ∧ ∀ p ∈ b.returned, p ∈ b.published := by
  obtain ⟨b, hb⟩ : ∃ b, run step Bridge.fresh (tornRead.take 10 ++ [.readId]) = some b := ⟨_, rfl⟩
  have hstable : Along step StableId Bridge.fresh (tornRead.take 10 ++ [.readId]) := by decide
  exact ⟨b, hb, by cases hb; rfl,
    (returned_published_iff_stable _ b hb (by decide)).mpr hstable⟩

end Blockchecks.BridgeFence
