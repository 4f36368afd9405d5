import Blockchecks.BridgeIpc

namespace Blockchecks.BridgeSteps

open BridgeIpc

/-- Everything one action can do. -/
inductive Effect (b : Bridge) : Action → Bridge → Prop
  | probe {p : Publication} (hn : b.next = .finished) :
      Effect b (.probe p) { b with
        current := p, next := .truncateEvents, published := b.published ++ [(p.strategyId, p.gen)] }
  | truncated (hn : b.next = .truncateEvents) :
      Effect b .fileOp { b with
        files := { b.files with events := [] }, window := [], next := .replaceGen }
  | replacedGen (hn : b.next = .replaceGen) :
      Effect b .fileOp { b with
        files := { b.files with strategyGen := some b.current.gen }
        next := if b.current.staged then .replaceCmd else .replaceId }
  | replacedCmd (hn : b.next = .replaceCmd) :
      Effect b .fileOp { b with
        files := { b.files with strategyCmd := b.current.cmd }, next := .replaceId }
  | replacedId (hn : b.next = .replaceId) :
      Effect b .fileOp { b with
        files := { b.files with strategyId := some b.current.strategyId }, next := .replaceReady }
  | replacedReady (hn : b.next = .replaceReady) :
      Effect b .fileOp { b with
        files := { b.files with strategyReady := some b.current.gen }, next := .finished }
  | notReady (hr : b.reader = .idle) (hf : b.files.strategyReady = none) :
      Effect b .readReady { b with reader := .idle }
  | ready {r : Nat} (hr : b.reader = .idle) (hf : b.files.strategyReady = some r) :
      Effect b .readReady { b with reader := .haveReady r }
  | fenced {r : Nat} (hr : b.reader = .haveReady r) (hf : b.files.strategyGen ≠ some r) :
      Effect b .readGen { b with reader := .idle }
  | accepted {r : Nat} (hr : b.reader = .haveReady r) (hf : b.files.strategyGen = some r) :
      Effect b .readGen { b with reader := .haveGen r b.files.strategyId }
  | noId {g : Nat} {idThen : Option Nat} (hr : b.reader = .haveGen g idThen)
      (hf : b.files.strategyId = none) : Effect b .readId { b with reader := .idle }
  | returned {g i : Nat} {idThen : Option Nat} (hr : b.reader = .haveGen g idThen)
      (hf : b.files.strategyId = some i) : Effect b .readId { b with
        reader := .idle, activeId := i, activeGen := g, returned := b.returned ++ [(i, g)] }
  | openFails (hr : b.reader ≠ .idle) : Effect b .openFails { b with reader := .idle }
  | scanPick {plan : List PlanInstance} (hr : b.reader = .idle) :
      Effect b (.scanPick plan) (scanPick b plan)
  | rstIn {ttl : Nat} (hr : b.reader = .idle) (httl : 64 ≤ ttl) :
      Effect b (.rstIn ttl) (smartFallback b .rstIn (some ttl))
  | retrans (hr : b.reader = .idle) : Effect b .retrans (smartFallback b .retrans none)

theorem fileOp_effect {b b' : Bridge} (h : fileOp b = some b') : Effect b .fileOp b' := by
  rw [fileOp] at h
  cases hn : b.next with
  | finished => simp [hn] at h
  | truncateEvents =>
      simp only [hn, Option.some.injEq] at h
      exact h ▸ .truncated hn
  | replaceGen =>
      simp only [hn, Option.some.injEq] at h
      exact h ▸ .replacedGen hn
  | replaceCmd =>
      simp only [hn, Option.some.injEq] at h
      exact h ▸ .replacedCmd hn
  | replaceId =>
      simp only [hn, Option.some.injEq] at h
      exact h ▸ .replacedId hn
  | replaceReady =>
      simp only [hn, Option.some.injEq] at h
      exact h ▸ .replacedReady hn

theorem readReady_effect {b b' : Bridge} (h : readReady b = some b') : Effect b .readReady b' := by
  cases hr : b.reader with
  | haveReady r | haveGen g idThen => simp [readReady, hr] at h
  | idle =>
      simp only [readReady, hr, Option.some.injEq] at h
      subst h
      cases hf : b.files.strategyReady with
      | none => exact .notReady hr hf
      | some r => exact .ready hr hf

theorem readGen_effect {b b' : Bridge} (h : readGen b = some b') : Effect b .readGen b' := by
  cases hr : b.reader with
  | idle | haveGen g idThen => simp [readGen, hr] at h
  | haveReady r =>
      simp only [readGen, hr, Option.some.injEq] at h
      subst h
      split
      next hf => exact .accepted hr hf
      next hf => exact .fenced hr hf

theorem readId_effect {b b' : Bridge} (h : readId b = some b') : Effect b .readId b' := by
  cases hr : b.reader with
  | idle | haveReady r => simp [readId, hr] at h
  | haveGen g idThen =>
      cases hf : b.files.strategyId with
      | none =>
          simp only [readId, hr, hf, Option.some.injEq] at h
          exact h ▸ .noId hr hf
      | some i =>
          simp only [readId, hr, hf, Option.some.injEq] at h
          exact h ▸ .returned hr hf

theorem step_effect {b b' : Bridge} {a : Action} (h : step b a = some b') : Effect b a b' := by
  cases a with
  | fileOp => exact fileOp_effect h
  | readReady => exact readReady_effect h
  | readGen => exact readGen_effect h
  | readId => exact readId_effect h
  | probe p =>
      simp only [step, Option.ite_none_right_eq_some, Option.some.injEq] at h
      exact h.2 ▸ .probe h.1
  | openFails =>
      simp only [step, Option.ite_none_left_eq_some, Option.some.injEq] at h
      exact h.2 ▸ .openFails h.1
  | scanPick plan =>
      simp only [step, Option.ite_none_right_eq_some, Option.some.injEq] at h
      exact h.2 ▸ .scanPick h.1
  | rstIn ttl =>
      simp only [step, Option.ite_none_right_eq_some, Option.some.injEq] at h
      exact h.2 ▸ .rstIn h.1.1 h.1.2
  | retrans =>
      simp only [step, Option.ite_none_right_eq_some, Option.some.injEq] at h
      exact h.2 ▸ .retrans h.1

end Blockchecks.BridgeSteps
