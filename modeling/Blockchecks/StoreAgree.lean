import Blockchecks.StoreEffect
import Mathlib.Data.PNat.Defs

namespace Blockchecks.StoreAgree

open RunStore ProbeLogger StoreDirect StoreEffect

/-- A call with the readings of its clocks. -/
abbrev Timed := Clock × Call

def Call.key : Call → String × String
  | .tcp args => (args.strategy, args.proto)
  | .udp args => (args.strategy, "udp")

def Call.text : Call → String
  | .tcp args => orElse args.configPath args.strategy
  | .udp args => orElse args.configPath args.strategy

def logged : List Op → List Timed
  | [] => []
  | .log clock call :: ops => (clock, call) :: logged ops
  | .flush _ :: ops => logged ops

def tcpCalls : List Timed → List (Clock × TcpArgs)
  | [] => []
  | (clock, .tcp args) :: calls => (clock, args) :: tcpCalls calls
  | (_, .udp _) :: calls => tcpCalls calls

def udpCalls : List Timed → List (Clock × UdpArgs)
  | [] => []
  | (_, .tcp _) :: calls => udpCalls calls
  | (clock, .udp args) :: calls => (clock, args) :: udpCalls calls

def tcpNamed (call : Clock × TcpArgs) : (String × String) × TcpCells :=
  ((call.2.strategy, call.2.proto), directTcpValues call.1 call.2)

def udpNamed (call : Clock × UdpArgs) : (String × String) × UdpCells :=
  ((call.2.strategy, "udp"), directUdpValues call.1 call.2)

/-- The texts of some calls in the order of the calls. -/
def texts (calls : List Timed) : List ((String × String) × String) :=
  calls.map (fun c => (Call.key c.2, Call.text c.2))

/-- The texts of a batch in the order of its flush: TCP rows come first. -/
def batchTexts (calls : List Timed) : List ((String × String) × String) :=
  (tcpCalls calls).map (fun c => ((c.2.strategy, c.2.proto), orElse c.2.configPath c.2.strategy)) ++
    (udpCalls calls).map (fun c => ((c.2.strategy, "udp"), orElse c.2.configPath c.2.strategy))

theorem tcpCalls_append (a b : List Timed) : tcpCalls (a ++ b) = tcpCalls a ++ tcpCalls b := by
  induction a with
  | nil => rfl
  | cons c a ih =>
      obtain ⟨clock, call⟩ := c
      cases call with
      | tcp args => rw [List.cons_append, tcpCalls, tcpCalls, ih, List.cons_append]
      | udp args => rw [List.cons_append, tcpCalls, tcpCalls, ih]

theorem udpCalls_append (a b : List Timed) : udpCalls (a ++ b) = udpCalls a ++ udpCalls b := by
  induction a with
  | nil => rfl
  | cons c a ih =>
      obtain ⟨clock, call⟩ := c
      cases call with
      | tcp args => rw [List.cons_append, udpCalls, udpCalls, ih]
      | udp args => rw [List.cons_append, udpCalls, udpCalls, ih, List.cons_append]

/-- The number of buffered rows that a call compares with the batch size. -/
def fill (calls : List Timed) : Call → Nat
  | .tcp _ => (tcpCalls calls).length
  | .udp _ => (udpCalls calls).length

/-- The calls between two flushes of a buffered store, the last ones included. -/
def cut (size : ℕ+) (interval : ℚ) (kept : List Timed) (since : Option ℚ) :
    List Op → List (List Timed)
  | [] => [kept]
  | .flush _ :: ops => kept :: cut size interval [] none ops
  | .log clock call :: ops =>
      let now := kept ++ [(clock, call)]
      let first := since.getD clock.marked
      if size ≤ fill now call ∨ interval ≤ clock.checked - first then
        now :: cut size interval [] none ops
      else cut size interval now (some first) ops

def batches (size : ℕ+) (interval : ℚ) (ops : List Op) : List (List Timed) :=
  cut size interval [] none ops

/-- The last text that is not empty. -/
def lastSaid (said : List String) : Option String := (said.filter (· ≠ "")).getLast?

/-- The last text of every strategy is also the last one of those that open a
batch; what the database had stands in for a text that is missing. -/
def SameLast (db : Database) (size : ℕ+) (interval : ℚ) (ops : List Op) : Prop :=
  ∀ key, (lastSaid (textsOf key (texts (logged ops)))).getD ((db.1.configOf key).getD "") =
    (lastSaid ((batches size interval ops).flatMap
      (fun batch => (textsOf key (batchTexts batch)).take 1))).getD ((db.1.configOf key).getD "")

theorem foldl_upsertText_some (old : String) (said : List String) :
    said.foldl upsertText (some old) = some ((lastSaid said).getD old) := by
  induction said generalizing old with
  | nil => rfl
  | cons text said ih =>
      rw [List.foldl_cons, upsertText, ih, lastSaid, lastSaid, List.filter_cons]
      by_cases htext : text = ""
      · rw [if_pos htext, if_neg (by simp [htext])]
      · rw [if_neg htext, if_pos (by simp [htext]), List.getLast?_cons]
        rfl

theorem foldl_upsertText (old : Option String) {said : List String} (h : said ≠ []) :
    said.foldl upsertText old = some ((lastSaid said).getD (old.getD "")) := by
  cases old with
  | some old => exact foldl_upsertText_some old said
  | none =>
      cases said with
      | nil => exact absurd rfl h
      | cons text said =>
          rw [List.foldl_cons, upsertText, foldl_upsertText_some, lastSaid, lastSaid,
            List.filter_cons]
          by_cases htext : text = ""
          · rw [if_neg (by simp [htext]), htext]
            rfl
          · rw [if_pos (by simp [htext]), List.getLast?_cons]
            rfl

theorem textsOf_eq_nil_iff {key : String × String} {said : List ((String × String) × String)} :
    textsOf key said = [] ↔ ∀ e ∈ said, e.1 ≠ key := by
  rw [textsOf, List.map_eq_nil_iff, List.filter_eq_nil_iff]
  simp

theorem batchTexts_perm (calls : List Timed) : (batchTexts calls).Perm (texts calls) := by
  induction calls with
  | nil => exact List.Perm.refl _
  | cons c calls ih =>
      obtain ⟨clock, call⟩ := c
      cases call with
      | tcp args => exact List.Perm.cons _ ih
      | udp args => exact List.perm_middle.trans (List.Perm.cons _ ih)

theorem flatten_cut (size : ℕ+) (interval : ℚ) (kept : List Timed) (since : Option ℚ)
    (ops : List Op) : (cut size interval kept since ops).flatten = kept ++ logged ops := by
  induction ops generalizing kept since with
  | nil => rw [cut, logged, List.flatten_singleton, List.append_nil]
  | cons op ops ih =>
      cases op with
      | flush now => rw [cut, List.flatten_cons, ih, logged, List.nil_append]
      | log clock call =>
          simp only [cut, logged]
          split
          · rw [List.flatten_cons, ih, List.nil_append, List.append_assoc, List.singleton_append]
          · rw [ih, List.append_assoc, List.singleton_append]

/-- A strategy says something in a run if and only if it opens some batch. -/
theorem said_iff (size : ℕ+) (interval : ℚ) (ops : List Op) (key : String × String) :
    textsOf key (texts (logged ops)) = [] ↔ (batches size interval ops).flatMap
      (fun batch => (textsOf key (batchTexts batch)).take 1) = [] := by
  have hflat : logged ops = (batches size interval ops).flatten := by
    rw [batches, flatten_cut, List.nil_append]
  rw [hflat, textsOf_eq_nil_iff, List.flatMap_eq_nil_iff, texts, List.map_flatten]
  constructor
  · intro h batch hbatch
    have hnil : textsOf key (batchTexts batch) = [] := by
      refine textsOf_eq_nil_iff.mpr (fun e he => h e ?_)
      exact List.mem_flatten.mpr ⟨texts batch, List.mem_map_of_mem hbatch,
        (batchTexts_perm batch).mem_iff.mp he⟩
    rw [hnil]
    rfl
  · intro h e he
    obtain ⟨l, hl, he⟩ := List.mem_flatten.mp he
    obtain ⟨batch, hbatch, rfl⟩ := List.mem_map.mp hl
    have hnil : textsOf key (batchTexts batch) = [] := by
      have := h batch hbatch
      rw [List.take_eq_nil_iff] at this
      exact this.resolve_left Nat.one_ne_zero
    exact textsOf_eq_nil_iff.mp hnil e ((batchTexts_perm batch).mem_iff.mpr he)

/-- The run that the next row belongs to. -/
def runNumber (s : Store) : Nat := s.runId.getD s.nextRun

theorem ensureRunId_eq (s : Store) : ∃ runId nextRun,
    s.ensureRunId = ({ s with runId := runId, nextRun := nextRun }, runNumber s) ∧
      runId = some (runNumber s) := by
  obtain ⟨tables, nextRun, runId, batchSize, flushInterval, tcp, udp, since⟩ := s
  cases runId with
  | some runId => exact ⟨some runId, nextRun, rfl, rfl⟩
  | none => exact ⟨some nextRun, nextRun + 1, rfl, rfl⟩

/-- A store with batch size zero keeps nothing back. -/
structure Direct (s : Store) : Prop where
  size : s.batchSize = 0
  tcp : s.tcpPending = []
  udp : s.udpPending = []

theorem saying_log (clock : Clock) (call : Call) :
    (fun key => saying (Call.key call) (Call.text call) key ++ silent key) =
      fun key => textsOf key (texts (logged [.log clock call])) := by
  funext key
  rw [logged, logged, texts, List.map_singleton, textsOf_cons, saying, silent, List.append_nil]
  by_cases hkey : key = Call.key call
  · rw [if_pos hkey, if_pos hkey.symm]
    rfl
  · rw [if_neg hkey, if_neg (Ne.symm hkey)]
    rfl

theorem direct_step {s : Store} (hs : Direct s) (hsound : s.tables.Sound) (op : Op) :
    ∃ s', s.step op = some s' ∧ Direct s' ∧ runNumber s' = runNumber s ∧
      Effect (runNumber s) s.tables s'.tables ((tcpCalls (logged [op])).map tcpNamed)
        ((udpCalls (logged [op])).map udpNamed) (fun key => textsOf key (texts (logged [op]))) := by
  obtain ⟨runId, nextRun, hrun, rfl⟩ := ensureRunId_eq s
  cases op with
  | flush now =>
      exact ⟨s, by rw [Store.step, Store.flush, if_pos ⟨hs.tcp, hs.udp⟩], hs, rfl, Effect.refl hsound⟩
  | log clock call =>
      cases call with
      | tcp args =>
          obtain ⟨t, sid, hensure, hsid, heffect⟩ := ensureStrategy_effect (runNumber s) hsound
            args.strategy args.proto (orElse args.configPath args.strategy)
          have hinsert := insertTcp_effect (runNumber s) heffect.sound
            (List.Forall₂.cons (a := (sid, directTcpValues clock args))
              (b := tcpNamed (clock, args)) ⟨hsid, rfl⟩ List.Forall₂.nil)
          refine ⟨{ s with
            runId := some (runNumber s)
            nextRun := nextRun
            tables := t.insertTcp (runNumber s) [(sid, directTcpValues clock args)] }, ?_,
            ⟨hs.size, hs.tcp, hs.udp⟩, rfl, ?_⟩
          · rw [Store.step, Store.logTcp, if_neg (by rw [hs.size]; exact Nat.lt_irrefl 0), hrun]
            simp only [hensure, Option.bind_eq_bind, Option.bind_some]
          · have h := heffect.trans hinsert
            rw [← saying_log clock (.tcp args)]
            exact h
      | udp args =>
          obtain ⟨t, sid, hensure, hsid, heffect⟩ := ensureStrategy_effect (runNumber s) hsound
            args.strategy "udp" (orElse args.configPath args.strategy)
          have hinsert := insertUdp_effect (runNumber s) heffect.sound
            (List.Forall₂.cons (a := (sid, directUdpValues clock args))
              (b := udpNamed (clock, args)) ⟨hsid, rfl⟩ List.Forall₂.nil)
          refine ⟨{ s with
            runId := some (runNumber s)
            nextRun := nextRun
            tables := t.insertUdp (runNumber s) [(sid, directUdpValues clock args)] }, ?_,
            ⟨hs.size, hs.tcp, hs.udp⟩, rfl, ?_⟩
          · rw [Store.step, Store.logUdp, if_neg (by rw [hs.size]; exact Nat.lt_irrefl 0), hrun]
            simp only [hensure, Option.bind_eq_bind, Option.bind_some]
          · have h := heffect.trans hinsert
            rw [← saying_log clock (.udp args)]
            exact h

theorem logged_cons (op : Op) (ops : List Op) : logged (op :: ops) = logged [op] ++ logged ops := by
  cases op with
  | log clock call => rfl
  | flush now => rfl

theorem direct_run {s : Store} (hs : Direct s) (hsound : s.tables.Sound) (ops : List Op) :
    ∃ s', s.run ops = some s' ∧
      Effect (runNumber s) s.tables s'.tables ((tcpCalls (logged ops)).map tcpNamed)
        ((udpCalls (logged ops)).map udpNamed) (fun key => textsOf key (texts (logged ops))) := by
  induction ops generalizing s with
  | nil => exact ⟨s, rfl, Effect.refl hsound⟩
  | cons op ops ih =>
      obtain ⟨s₁, hstep, hs₁, hrun₁, heffect₁⟩ := direct_step hs hsound op
      obtain ⟨s₂, hrest, heffect₂⟩ := ih hs₁ heffect₁.sound
      refine ⟨s₂, ?_, ?_⟩
      · rw [Store.run, List.foldlM_cons, hstep]
        exact hrest
      · rw [hrun₁] at heffect₂
        have h := heffect₁.trans heffect₂
        rw [logged_cons, tcpCalls_append, udpCalls_append, texts, List.map_append, List.map_append,
          List.map_append]
        simp only [textsOf_append]
        exact h

/-- What a buffered store holds of the calls since its last flush. -/
structure Buffers (size : ℕ+) (interval : ℚ) (s : Store) (kept : List Timed) (first : Option ℚ) :
    Prop where
  size : s.batchSize = size
  interval : s.flushInterval = interval
  tcp : s.tcpPending = (tcpCalls kept).map (fun c => pendTcp c.1 c.2)
  udp : s.udpPending = (udpCalls kept).map (fun c => pendUdp c.1 c.2)
  since : s.pendingSince = first
  idle : kept = [] → first = none

variable {size : ℕ+} {interval : ℚ} {s : Store} {kept : List Timed} {first : Option ℚ}

theorem calls_eq_nil_iff (calls : List Timed) :
    tcpCalls calls = [] ∧ udpCalls calls = [] ↔ calls = [] := by
  cases calls with
  | nil => exact iff_of_true ⟨rfl, rfl⟩ rfl
  | cons c calls =>
      obtain ⟨clock, call⟩ := c
      refine iff_of_false ?_ (List.cons_ne_nil _ _)
      cases call with
      | tcp args => exact fun h => List.cons_ne_nil _ _ h.1
      | udp args => exact fun h => List.cons_ne_nil _ _ h.2

theorem flush_buffers (hs : Buffers size interval s kept first) (hsound : s.tables.Sound)
    (now : String) :
    ∃ s', s.flush now = some s' ∧ Buffers size interval s' [] none ∧ runNumber s' = runNumber s ∧
      Effect (runNumber s) s.tables s'.tables ((tcpCalls kept).map tcpNamed)
        ((udpCalls kept).map udpNamed) (fun key => (textsOf key (batchTexts kept)).take 1) := by
  have hempty : (s.tcpPending = [] ∧ s.udpPending = []) ↔ kept = [] := by
    rw [hs.tcp, hs.udp, List.map_eq_nil_iff, List.map_eq_nil_iff]
    exact calls_eq_nil_iff kept
  rw [Store.flush]
  by_cases hkept : kept = []
  · rw [if_pos (hempty.mpr hkept)]
    obtain rfl := hkept
    obtain rfl := hs.idle rfl
    exact ⟨s, rfl, hs, rfl, Effect.refl hsound⟩
  · rw [if_neg (fun h => hkept (hempty.mp h))]
    obtain ⟨runId, nextRun, hrun, rfl⟩ := ensureRunId_eq s
    obtain ⟨t, hwrite, heffect⟩ := writeBatch_effect (runNumber s) hsound
      (s.tcpPending.map (TcpPending.entry now)) (s.udpPending.map (UdpPending.entry now))
    refine ⟨{ s with
      runId := some (runNumber s)
      nextRun := nextRun
      tables := t
      tcpPending := []
      udpPending := []
      pendingSince := none }, ?_,
      ⟨hs.size, hs.interval, rfl, rfl, rfl, fun _ => rfl⟩, rfl, ?_⟩
    · rw [hrun]
      simp only [hwrite, Option.bind_eq_bind, Option.bind_some]
    · have htcp : (s.tcpPending.map (TcpPending.entry now)).map entryRow =
          (tcpCalls kept).map tcpNamed := by
        rw [hs.tcp, List.map_map, List.map_map]
        refine List.map_congr_left (fun c _ => ?_)
        exact congrArg (Prod.mk _) (tcpRowValues_pendTcp now c.1 c.2)
      have hudp : (s.udpPending.map (UdpPending.entry now)).map entryRow =
          (udpCalls kept).map udpNamed := by
        rw [hs.udp, List.map_map, List.map_map]
        refine List.map_congr_left (fun c _ => ?_)
        exact congrArg (Prod.mk _) (udpRowValues_pendUdp now c.1 c.2)
      have htexts : (s.tcpPending.map (TcpPending.entry now)).map entryText ++
          (s.udpPending.map (UdpPending.entry now)).map entryText = batchTexts kept := by
        rw [hs.tcp, hs.udp, List.map_map, List.map_map, List.map_map, List.map_map]
        rfl
      rw [htcp, hudp, htexts] at heffect
      exact heffect

/-- What a call that has joined the batch does next. -/
theorem flush_by_size_or_age {m n : Nat} {clock : Clock} {since : ℚ}
    (hs : Buffers size interval s kept (some since)) (hmn : m = n) :
    (if s.batchSize ≤ m then s.flush clock.timestamp else s.maybeFlushByAge clock) =
      if size ≤ n ∨ interval ≤ clock.checked - since then s.flush clock.timestamp else some s := by
  rw [Store.maybeFlushByAge, hs.since, hs.size, hs.interval, hmn]
  by_cases hfull : (size : Nat) ≤ n
  · rw [if_pos hfull, if_pos (Or.inl hfull)]
  · rw [if_neg hfull]
    by_cases hold : interval ≤ clock.checked - since
    · rw [if_pos (Or.inr hold)]
      exact if_pos hold
    · rw [if_neg (fun h => h.elim hfull hold)]
      exact if_neg hold

/-- A call of a buffered store joins the batch, which may then be full or old. -/
theorem log_buffers (hs : Buffers size interval s kept first) (clock : Clock) (call : Call) :
    ∃ s₁, Buffers size interval s₁ (kept ++ [(clock, call)]) (some (first.getD clock.marked)) ∧
      s₁.tables = s.tables ∧ runNumber s₁ = runNumber s ∧ s.step (.log clock call) =
        if size ≤ fill (kept ++ [(clock, call)]) call ∨
          interval ≤ clock.checked - first.getD clock.marked
        then s₁.flush clock.timestamp else some s₁ := by
  have hidle : kept ++ [(clock, call)] = [] → some (first.getD clock.marked) = none :=
    fun h => absurd h (List.append_ne_nil_of_right_ne_nil kept (List.cons_ne_nil _ _))
  have hsize : 0 < s.batchSize := hs.size ▸ size.pos
  cases call with
  | tcp args =>
      have hpend : s.tcpPending ++ [pendTcp clock args] =
          (tcpCalls (kept ++ [(clock, .tcp args)])).map (fun c => pendTcp c.1 c.2) := by
        rw [tcpCalls_append, List.map_append, hs.tcp]
        rfl
      have hs₁ : Buffers size interval
          ({ s with tcpPending := s.tcpPending ++ [pendTcp clock args] }.markPending clock)
          (kept ++ [(clock, .tcp args)]) (some (first.getD clock.marked)) := by
        refine ⟨hs.size, hs.interval, hpend, ?_, ?_, hidle⟩
        · rw [udpCalls_append]
          exact hs.udp.trans (congrArg _ (List.append_nil _).symm)
        · exact congrArg some (by rw [hs.since])
      refine ⟨_, hs₁, rfl, rfl, ?_⟩
      rw [Store.step, Store.logTcp, if_pos hsize]
      exact flush_by_size_or_age hs₁ ((congrArg List.length hpend).trans (List.length_map _))
  | udp args =>
      have hpend : s.udpPending ++ [pendUdp clock args] =
          (udpCalls (kept ++ [(clock, .udp args)])).map (fun c => pendUdp c.1 c.2) := by
        rw [udpCalls_append, List.map_append, hs.udp]
        rfl
      have hs₁ : Buffers size interval
          ({ s with udpPending := s.udpPending ++ [pendUdp clock args] }.markPending clock)
          (kept ++ [(clock, .udp args)]) (some (first.getD clock.marked)) := by
        refine ⟨hs.size, hs.interval, ?_, hpend, ?_, hidle⟩
        · rw [tcpCalls_append]
          exact hs.tcp.trans (congrArg _ (List.append_nil _).symm)
        · exact congrArg some (by rw [hs.since])
      refine ⟨_, hs₁, rfl, rfl, ?_⟩
      rw [Store.step, Store.logUdp, if_pos hsize]
      exact flush_by_size_or_age hs₁ ((congrArg List.length hpend).trans (List.length_map _))

/-- One flush and the rest of the run. -/
theorem flush_then_run {ops : List Op} {now now' : String}
    (hs : Buffers size interval s kept first) (hsound : s.tables.Sound)
    (hrest : ∀ {s : Store}, Buffers size interval s [] none → s.tables.Sound →
      ∃ s', s.run (ops ++ [.flush now]) = some s' ∧
        Effect (runNumber s) s.tables s'.tables ((tcpCalls ([] ++ logged ops)).map tcpNamed)
          ((udpCalls ([] ++ logged ops)).map udpNamed)
          (fun key => (cut size interval [] none ops).flatMap
            (fun batch => (textsOf key (batchTexts batch)).take 1))) :
    ∃ s₁ s', s.flush now' = some s₁ ∧ s₁.run (ops ++ [.flush now]) = some s' ∧
      Effect (runNumber s) s.tables s'.tables ((tcpCalls (kept ++ logged ops)).map tcpNamed)
        ((udpCalls (kept ++ logged ops)).map udpNamed)
        (fun key => (kept :: cut size interval [] none ops).flatMap
          (fun batch => (textsOf key (batchTexts batch)).take 1)) := by
  obtain ⟨s₁, hflush, hs₁, hrun₁, heffect₁⟩ := flush_buffers hs hsound now'
  obtain ⟨s', hrun, heffect₂⟩ := hrest hs₁ heffect₁.sound
  refine ⟨s₁, s', hflush, hrun, ?_⟩
  rw [hrun₁] at heffect₂
  rw [tcpCalls_append, udpCalls_append, List.map_append, List.map_append]
  exact heffect₁.trans heffect₂

/-- A buffered run with a last flush writes the batches of its calls. -/
theorem buffered_run (hs : Buffers size interval s kept first) (hsound : s.tables.Sound)
    (ops : List Op) (now : String) :
    ∃ s', s.run (ops ++ [.flush now]) = some s' ∧
      Effect (runNumber s) s.tables s'.tables ((tcpCalls (kept ++ logged ops)).map tcpNamed)
        ((udpCalls (kept ++ logged ops)).map udpNamed)
        (fun key => (cut size interval kept first ops).flatMap
          (fun batch => (textsOf key (batchTexts batch)).take 1)) := by
  induction ops generalizing s kept first with
  | nil =>
      obtain ⟨s', hstep, _, _, heffect⟩ := flush_buffers hs hsound now
      refine ⟨s', ?_, ?_⟩
      · rw [List.nil_append, Store.run, List.foldlM_cons, Store.step, hstep]
        rfl
      · rw [logged, List.append_nil]
        simpa only [cut, List.flatMap_cons, List.flatMap_nil, List.append_nil] using heffect
  | cons op ops ih =>
      cases op with
      | flush now' =>
          obtain ⟨s₁, s', hstep, hrest, heffect⟩ := flush_then_run hs hsound (ih · ·)
          refine ⟨s', ?_, heffect⟩
          rw [List.cons_append, Store.run, List.foldlM_cons, Store.step, hstep]
          exact hrest
      | log clock call =>
          obtain ⟨s₁, hs₁, htables, hrun₁, hstep⟩ := log_buffers hs clock call
          have hlogged : kept ++ logged (.log clock call :: ops) =
              kept ++ [(clock, call)] ++ logged ops := by
            rw [logged, List.append_assoc, List.singleton_append]
          rw [List.cons_append, Store.run, List.foldlM_cons, hstep, hlogged, ← hrun₁, ← htables]
          by_cases hfull : size ≤ fill (kept ++ [(clock, call)]) call ∨
              interval ≤ clock.checked - first.getD clock.marked
          · obtain ⟨s₂, s', hflushed, hrest, heffect⟩ :=
              flush_then_run hs₁ (htables ▸ hsound) (ih · ·)
            have hcut : cut size interval kept first (.log clock call :: ops) =
                (kept ++ [(clock, call)]) :: cut size interval [] none ops := if_pos hfull
            rw [if_pos hfull, hflushed, hcut]
            exact ⟨s', hrest, heffect⟩
          · have hcut : cut size interval kept first (.log clock call :: ops) =
                cut size interval (kept ++ [(clock, call)]) (some (first.getD clock.marked)) ops :=
              if_neg hfull
            rw [if_neg hfull, hcut]
            exact ih hs₁ (htables ▸ hsound)

/-- Both stores hold the same rows, and they hold the same strategies when and
only when the texts that open the batches end like all texts. -/
theorem same_rows_same_strategies_iff (db : Database) (runId : Option Nat) (nextRun : Nat)
    (size : ℕ+) (interval : ℚ) (ops : List Op) (now : String) :
    ∃ direct buffered,
      (openStore db runId nextRun 0 interval).run ops = some direct ∧
      (openStore db runId nextRun size interval).run (ops ++ [.flush now]) = some buffered ∧
      direct.tables.tcpRows = buffered.tables.tcpRows ∧
      direct.tables.udpRows = buffered.tables.udpRows ∧
      (direct.tables.strategySet = buffered.tables.strategySet ↔ SameLast db size interval ops) := by
  have hdirect : Direct (openStore db runId nextRun 0 interval) := ⟨rfl, rfl, rfl⟩
  have hbuffers : Buffers size interval (openStore db runId nextRun size interval) [] none :=
    ⟨rfl, rfl, rfl, rfl, rfl, fun _ => rfl⟩
  obtain ⟨direct, hrun, heffect⟩ := direct_run hdirect db.2 ops
  obtain ⟨buffered, hrun', heffect'⟩ := buffered_run hbuffers db.2 ops now
  refine ⟨direct, buffered, hrun, hrun', ?_, ?_, ?_⟩
  · exact heffect.tcpRows.trans heffect'.tcpRows.symm
  · exact heffect.udpRows.trans heffect'.udpRows.symm
  · rw [strategySet_eq_iff heffect.sound heffect'.sound, SameLast]
    refine forall_congr' (fun key => ?_)
    have hsaid := said_iff size interval ops key
    rw [heffect.config, heffect'.config]
    by_cases hnil : textsOf key (texts (logged ops)) = []
    · rw [hnil]
      rw [hsaid] at hnil
      change _ = ((batches size interval ops).flatMap _).foldl upsertText _ ↔ _
      rw [hnil]
      exact iff_of_true rfl rfl
    · rw [foldl_upsertText _ hnil]
      rw [hsaid] at hnil
      change _ = ((batches size interval ops).flatMap _).foldl upsertText _ ↔ _
      rw [foldl_upsertText _ hnil, Option.some_inj]
      rfl

def noon : Clock where
  timestamp := "2024-01-01T12:00:00"
  epochMs := 0
  marked := 0
  checked := 0
  stamped := by decide

def emptyDatabase : Database :=
  ⟨⟨[], [], []⟩, List.nodup_nil, List.nodup_nil, fun _ h => absurd h List.not_mem_nil,
    fun _ h => absurd h List.not_mem_nil⟩

/-- One strategy whose second call brings another text. -/
def reworded : List Op :=
  [.log noon (.tcp ⟨"fake", "a.org", "PASS", 10, 200, 0, true, "", 0, "old", "", "", "", "tcp", "",
      none, 0, 0, "", none, none⟩),
    .log noon (.tcp ⟨"fake", "b.org", "PASS", 10, 200, 0, true, "", 0, "new", "", "", "", "tcp", "",
      none, 0, 0, "", none, none⟩)]

theorem reworded_differs :
    ((openStore emptyDatabase none 1 0 2).run reworded).map (fun s => s.tables.strategySet) =
      some {("fake", "tcp", "new")} ∧
    ((openStore emptyDatabase none 1 10 2).run
      (reworded ++ [.flush "2024-01-01T12:00:02"])).map (fun s => s.tables.strategySet) =
      some {("fake", "tcp", "old")} ∧
    ({("fake", "tcp", "new")} : Finset (String × String × String)) ≠ {("fake", "tcp", "old")} := by
  decide +kernel

end Blockchecks.StoreAgree
