import Blockchecks.BridgeSteps

namespace Blockchecks.BridgeVerdict

open Runs BridgeIpc BridgeSteps

/-- A generation that some reader may hold. It is the current one only after
the publication has been committed by its last replace. -/
def Seen (b : Bridge) (r : Nat) : Prop :=
  r ≤ b.current.gen ∧ (r = b.current.gen → b.next = .finished)

def ReaderSeen (b : Bridge) : Reader → Prop
  | .idle => True
  | .haveReady r => Seen b r
  | .haveGen r _ => Seen b r

/-- An identifier paired with a generation. Older generations say nothing
about their identifier, the current one names the published strategy. -/
def Attributed (p : Publication) (id gen : Nat) : Prop :=
  gen ≤ p.gen ∧ (gen = p.gen → id = p.strategyId)

structure Fenced (b : Bridge) : Prop where
  active : Attributed b.current b.activeId b.activeGen
  events : ∀ line ∈ b.files.events, ∃ i g,
    line.id = some i ∧ line.gen = some g ∧ Attributed b.current i g
  ready : ∀ r, b.files.strategyReady = some r → Seen b r
  reader : ReaderSeen b b.reader
  committed : b.next = .replaceReady ∨ b.next = .finished →
    ∀ i, b.files.strategyId = some i → i = b.current.strategyId

/-- Every APPLIED line of the events file was written by a scan_pick call of
the present window, and counts the instances that call executed. -/
structure Credited (b : Bridge) : Prop where
  lines : ∀ line ∈ b.files.events, line.event = .applied →
    ∃ x ∈ b.window, line.id = some x.id ∧ line.matched = some x.instances.length
  tagged : ∀ x ∈ b.window, ∀ inst ∈ x.instances, inst.strategy = some x.id

theorem fresh_fenced : Fenced Bridge.fresh where
  active := ⟨Nat.le_refl _, fun _ => rfl⟩
  events := by simp [Bridge.fresh, setup]
  ready := by simp [Bridge.fresh, setup]
  reader := trivial
  committed := by simp [Bridge.fresh, setup]

theorem fresh_credited : Credited Bridge.fresh where
  lines := by simp [Bridge.fresh, setup]
  tagged := by simp [Bridge.fresh]

theorem Seen.unfinished {b b' : Bridge} {r : Nat} (h : Seen b r) (hc : b'.current = b.current)
    (hn : b.next ≠ .finished) : Seen b' r := by
  have hne : r ≠ b.current.gen := fun he => hn (h.2 he)
  rw [Seen, hc]
  exact ⟨h.1, fun he => absurd he hne⟩

theorem ReaderSeen.unfinished {b b' : Bridge} {rd : Reader} (h : ReaderSeen b rd)
    (hc : b'.current = b.current) (hn : b.next ≠ .finished) : ReaderSeen b' rd := by
  cases rd with
  | idle => trivial
  | haveReady r => exact Seen.unfinished h hc hn
  | haveGen r i => exact Seen.unfinished h hc hn

theorem Seen.superseded {b b' : Bridge} {r : Nat} (h : Seen b r)
    (hg : b.current.gen < b'.current.gen) : Seen b' r :=
  ⟨by have := h.1; omega, fun he => by have := h.1; omega⟩

theorem ReaderSeen.superseded {b b' : Bridge} {rd : Reader} (h : ReaderSeen b rd)
    (hg : b.current.gen < b'.current.gen) : ReaderSeen b' rd := by
  cases rd with
  | idle => trivial
  | haveReady r => exact Seen.superseded h hg
  | haveGen r i => exact Seen.superseded h hg

theorem Attributed.superseded {p q : Publication} {id gen : Nat} (h : Attributed p id gen)
    (hg : p.gen < q.gen) : Attributed q id gen :=
  ⟨by have := h.1; omega, fun he => by have := h.1; omega⟩

/-- A new publication outdates every generation that is in the files, in the
daemon's globals or in a reader. -/
theorem probe_fenced {b : Bridge} {p : Publication} (h : Fenced b) (hg : b.current.gen < p.gen) :
    Fenced { b with current := p, next := .truncateEvents,
                    published := b.published ++ [(p.strategyId, p.gen)] } where
  active := h.active.superseded hg
  events := by
    intro line hl
    obtain ⟨i, g, hi, hgen, ha⟩ := h.events line hl
    exact ⟨i, g, hi, hgen, ha.superseded hg⟩
  ready := fun r hr => (h.ready r hr).superseded hg
  reader := h.reader.superseded hg
  committed := by simp

/-- A file operation of an unfinished publication; only the commit of
strategy.ready announces a generation. -/
theorem Fenced.unfinished {b b' : Bridge} (h : Fenced b) (hn : b.next ≠ .finished)
    (hc : b'.current = b.current) (hid : b'.activeId = b.activeId) (hgen : b'.activeGen = b.activeGen)
    (hev : b'.files.events ⊆ b.files.events) (hrd : b'.reader = b.reader)
    (hready : ∀ r, b'.files.strategyReady = some r → Seen b' r)
    (hcom : b'.next = .replaceReady ∨ b'.next = .finished →
      ∀ i, b'.files.strategyId = some i → i = b'.current.strategyId) : Fenced b' where
  active := by
    rw [hc, hid, hgen]
    exact h.active
  events := by
    intro line hl
    rw [hc]
    exact h.events line (hev hl)
  ready := hready
  reader := by
    rw [hrd]
    exact h.reader.unfinished hc hn
  committed := hcom

theorem append_fenced {b : Bridge} (h : Fenced b) (line : EventLine) (w : List Execution)
    (hi : line.id = some b.activeId) (hg : line.gen = some b.activeGen) :
    Fenced (appendEvent { b with window := w } line) where
  active := h.active
  events := by
    intro l hl
    rcases List.mem_append.mp hl with hl | hl
    · exact h.events l hl
    · rw [List.mem_singleton.mp hl]
      exact ⟨_, _, hi, hg, h.active⟩
  ready := h.ready
  reader := h.reader
  committed := h.committed

theorem effect_fenced {b b' : Bridge} {a : Action} (h : Fenced b) (ha : Increasing b a)
    (he : Effect b a b') : Fenced b' := by
  have hready (hn : b.next ≠ .finished) {c : Bridge} (hc : c.current = b.current)
      (hf : c.files.strategyReady = b.files.strategyReady) (r : Nat)
      (hr : c.files.strategyReady = some r) : Seen c r :=
    (h.ready r (hf ▸ hr)).unfinished hc hn
  have hseen {r : Nat} {i : Option Nat} (hr : b.reader = .haveReady r ∨ b.reader = .haveGen r i) :
      Seen b r := by
    have hrd := h.reader
    rcases hr with hr | hr <;> rw [hr] at hrd <;> exact hrd
  cases he with
  | probe hn => exact probe_fenced h ha
  | truncated hn =>
      have hf : b.next ≠ .finished := by simp [hn]
      exact h.unfinished hf rfl rfl rfl (List.nil_subset _) rfl (hready hf rfl rfl) (by simp)
  | replacedGen hn =>
      have hf : b.next ≠ .finished := by simp [hn]
      refine h.unfinished hf rfl rfl rfl (List.Subset.refl _) rfl (hready hf rfl rfl) ?_
      dsimp only
      split <;> simp
  | replacedCmd hn =>
      have hf : b.next ≠ .finished := by simp [hn]
      exact h.unfinished hf rfl rfl rfl (List.Subset.refl _) rfl (hready hf rfl rfl) (by simp)
  | replacedId hn =>
      have hf : b.next ≠ .finished := by simp [hn]
      exact h.unfinished hf rfl rfl rfl (List.Subset.refl _) rfl (hready hf rfl rfl)
        (fun _ i hi => (Option.some.inj hi).symm)
  | replacedReady hn =>
      have hf : b.next ≠ .finished := by simp [hn]
      exact h.unfinished hf rfl rfl rfl (List.Subset.refl _) rfl
        (fun r hr => ⟨Nat.le_of_eq (Option.some.inj hr).symm, fun _ => rfl⟩)
        (fun _ i hi => h.committed (Or.inl hn) i hi)
  | ready hr hf => exact ⟨h.active, h.events, h.ready, h.ready _ hf, h.committed⟩
  | accepted hr hf => exact ⟨h.active, h.events, h.ready, hseen (i := none) (Or.inl hr), h.committed⟩
  | notReady | fenced | noId | openFails => exact ⟨h.active, h.events, h.ready, trivial, h.committed⟩
  | @returned g i idThen hr hf =>
      -- a current generation was accepted after strategy.id of the same publication
      have hg := hseen (Or.inr hr)
      exact ⟨⟨hg.1, fun he => h.committed (Or.inr (hg.2 he)) i hf⟩, h.events, h.ready, trivial,
        h.committed⟩
  | scanPick | rstIn | retrans => exact append_fenced h _ _ rfl rfl

theorem Credited.congr {b b' : Bridge} (h : Credited b) (he : b'.files.events = b.files.events)
    (hw : b'.window = b.window) : Credited b' := by
  refine ⟨?_, ?_⟩
  · rw [he, hw]; exact h.lines
  · rw [hw]; exact h.tagged

theorem scanPick_credited {b : Bridge} (h : Credited b) (plan : List PlanInstance) :
    Credited (scanPick b plan) where
  lines := by
    intro line hl ha
    simp only [scanPick, appendEvent, List.mem_append, List.mem_singleton] at hl ⊢
    rcases hl with hl | hl
    · obtain ⟨x, hx, hid, hm⟩ := h.lines line hl ha
      exact ⟨x, Or.inl hx, hid, hm⟩
    · subst hl
      exact ⟨_, Or.inr rfl, rfl, rfl⟩
  tagged := by
    intro x hx inst hinst
    simp only [scanPick, appendEvent, List.mem_append, List.mem_singleton] at hx
    rcases hx with hx | rfl
    · exact h.tagged x hx inst hinst
    · simpa using (List.mem_filter.mp hinst).2

theorem smartFallback_credited {b : Bridge} (h : Credited b) (reason : FailReason) (ttl : Option Nat) :
    Credited (smartFallback b reason ttl) where
  lines := by
    intro line hl ha
    simp only [smartFallback, appendEvent, List.mem_append, List.mem_singleton] at hl
    rcases hl with hl | rfl
    · exact h.lines line hl ha
    · simp at ha
  tagged := h.tagged

theorem effect_credited {b b' : Bridge} {a : Action} (h : Credited b) (he : Effect b a b') :
    Credited b' := by
  cases he with
  | truncated => exact ⟨by simp, by simp⟩
  | scanPick => exact scanPick_credited h _
  | rstIn | retrans => exact smartFallback_credited h _ _
  | probe | replacedGen | replacedCmd | replacedId | replacedReady | notReady | ready | fenced
  | accepted | noId | returned | openFails => exact h.congr rfl rfl

theorem drained_id {b : Bridge} (h : Fenced b) {ev : BridgeEvent}
    (hev : ev ∈ drainEvents b.files b.current.gen (some b.current.strategyId)) :
    ev.id = b.current.strategyId := by
  obtain ⟨hm, hk⟩ := List.mem_filter.mp hev
  obtain ⟨line, hl, rfl⟩ := List.mem_map.mp hm
  obtain ⟨i, g, hi, hg, ha⟩ := h.events line hl
  simp only [Bool.or_eq_true, decide_eq_true_eq, Option.some.injEq] at hk
  rcases hk with hk | hk
  · have hgen : (BridgeEvent.fromLine line).gen = g := by simp [BridgeEvent.fromLine, hg]
    have hid : (BridgeEvent.fromLine line).id = i := by simp [BridgeEvent.fromLine, hi]
    rw [hid]
    exact ha.2 (Nat.le_antisymm ha.1 (hgen ▸ hk))
  · exact hk.symm

theorem applied_executed {b : Bridge} (h : Credited b) {ev : BridgeEvent} {sinceGen : Nat}
    {expectId : Option Nat} (hev : ev ∈ drainEvents b.files sinceGen expectId)
    (ha : ev.isApplied = true) :
    ∃ x ∈ b.window, x.instances ≠ [] ∧ ∀ inst ∈ x.instances, inst.strategy = some ev.id := by
  obtain ⟨line, hl, rfl⟩ := List.mem_map.mp (List.mem_filter.mp hev).1
  simp only [BridgeEvent.isApplied, decide_eq_true_eq] at ha
  obtain ⟨x, hx, hid, hm⟩ := h.lines line hl ha.1
  have hxid : (BridgeEvent.fromLine line).id = x.id := by simp [BridgeEvent.fromLine, hid]
  refine ⟨x, hx, ?_, ?_⟩
  · intro he
    exact ha.2 (by simp [BridgeEvent.fromLine, hm, he])
  · rw [hxid]
    exact h.tagged x hx

def secondStrategyProbe : List Action :=
  [.scanPick [⟨"fake", some 1⟩], .probe ⟨2, 7, none⟩, .fileOp, .readReady, .fileOp, .fileOp, .fileOp,
    .readReady, .readGen, .readId, .scanPick [⟨"fake", some 1⟩, ⟨"multisplit", some 2⟩]]

end Blockchecks.BridgeVerdict
