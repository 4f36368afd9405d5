import Blockchecks.OrderedDict
import Blockchecks.Runs
import Blockchecks.StoreViews

namespace Blockchecks.MemoryMonitor

open OrderedDict Runs StoreViews

def mib : ℚ := 1024 * 1024

structure MemorySample where
  ts : ℚ
  rssBytes : Nat
  deriving DecidableEq

def MemorySample.rssMib (s : MemorySample) : ℚ := s.rssBytes / mib

/-- The slope of the regression line, in MiB a second. -/
def computeLeakSlope (samples : List MemorySample) : ℚ :=
  if samples.length < 2 then 0
  else
    let meanX := avg (samples.map MemorySample.ts)
    let meanY := avg (samples.map MemorySample.rssMib)
    let num := (samples.map (fun s => (s.ts - meanX) * (s.rssMib - meanY))).sum
    let den := (samples.map (fun s => (s.ts - meanX) * (s.ts - meanX))).sum
    if den = 0 then 0 else num / den

structure Settings where
  enabled : Bool := true
  maxMib : ℚ := 512
  leakSlope : ℚ := 8
  window : Int := 12
  poll : ℚ := 2

/-- The windows of the daemons by pid, and the time of the last check. -/
structure Monitor where
  windows : Dict Nat (List MemorySample) := .empty
  lastCheck : Option ℚ := none

/-- What a call finds outside: the namespace of each nfqws2 process, the pids
that a scan of a namespace lists, their memory, and the clock. -/
structure World where
  netns : Nat → Option String
  found : String → List Nat
  rss : Nat → Nat
  checkedAt : ℚ
  sampledAt : Nat → ℚ
  found_netns : ∀ ns, ∀ pid ∈ found ns, netns pid = some ns

structure Worker where
  ns : String
  backend : String := "lua_bridge"

inductive Reason where
  | rss
  | leak
  deriving DecidableEq

section settings

variable (cfg : Settings)

def push (samples : List MemorySample) (s : MemorySample) : List MemorySample :=
  let samples := samples ++ [s]
  if max 1 cfg.window < samples.length then samples.drop (samples.length - cfg.window).toNat else samples

def shouldSample (m : Monitor) (now : ℚ) : Bool × Monitor :=
  if !cfg.enabled then (false, m)
  else if m.lastCheck.any (fun last => now - last < cfg.poll) then (false, m)
  else (true, { m with lastCheck := some now })

def recordPid (world : World) (m : Monitor) (pid : Nat) : Monitor :=
  if !cfg.enabled || world.rss pid = 0 then m
  else
    let samples := (m.windows.get? pid).getD []
    { m with windows := m.windows.set pid (push cfg samples ⟨world.sampledAt pid, world.rss pid⟩) }

def recordNs (world : World) (m : Monitor) (ns : String) : Monitor :=
  if !cfg.enabled then m else (world.found ns).foldl (recordPid cfg world) m

/-- Why a window asks for a recycle: its last sample, or its slope. -/
def recycleReason (samples : List MemorySample) : Option Reason :=
  samples.getLast?.bind (fun last =>
    if cfg.maxMib < last.rssMib then some .rss
    else if cfg.leakSlope < computeLeakSlope samples then some .leak
    else none)

/-- The candidates of all windows, whatever namespace their pids are in. -/
def recycleCandidates (m : Monitor) : List (Nat × Reason) :=
  m.windows.entries.filterMap (fun e => (recycleReason cfg e.2).map (e.1, ·))

def Monitor.clear (m : Monitor) (pid : Nat) : Monitor := { m with windows := m.windows.erase pid }

def recordDaemonMem (world : World) (w : Worker) (m : Monitor) : Monitor :=
  if w.backend ≠ "lua_bridge" then m
  else match shouldSample cfg m world.checkedAt with
    | (false, m) => m
    | (true, m) => recordNs cfg world m w.ns

/-- The monitor after a call of _maybe_recycle, the windows that the call has
cleared, and whether it has rebooted the daemon of its session. -/
structure Recycle where
  monitor : Monitor
  cleared : List Nat
  rebooted : Bool

/-- The second world is the one after the reboot. -/
def maybeRecycle (before after : World) (w : Worker) (m : Monitor) : Recycle :=
  if w.backend ≠ "lua_bridge" then ⟨m, [], false⟩
  else
    let m := recordDaemonMem cfg before w m
    let pids := (recycleCandidates cfg m).map Prod.fst
    if pids = [] then ⟨m, [], false⟩
    else ⟨recordDaemonMem cfg after w (pids.foldl Monitor.clear m), pids, true⟩

/-- A call of one of the workers that share the monitor. -/
inductive Call where
  | record (w : Worker) (world : World)
  | recycle (w : Worker) (before after : World)

def step (m : Monitor) : Call → Option Monitor
  | .record w world => some (recordDaemonMem cfg world w m)
  | .recycle w before after => some (maybeRecycle cfg before after w m).monitor

/-- The pid exceeds the ceiling or the slope. -/
def Flagged (m : Monitor) (pid : Nat) : Prop :=
  ∃ samples, m.windows.get? pid = some samples ∧ (recycleReason cfg samples).isSome = true

/-- The pid is in another namespace than the worker of the call. -/
def Call.Foreign (pid : Nat) : Call → Prop
  | .record w world => world.netns pid ≠ some w.ns
  | .recycle w before after => before.netns pid ≠ some w.ns ∧ after.netns pid ≠ some w.ns

/-- A call reboots only when a pid of its own namespace is flagged, clears only
windows of its own pids, and leaves the flags of the other namespaces alone. -/
def Hits (m : Monitor) (call : Call) : Prop :=
  (match call with
    | .record _ _ => True
    | .recycle w before after =>
        let r := maybeRecycle cfg before after w m
        (r.rebooted = true → ∃ pid, before.netns pid = some w.ns ∧
          Flagged cfg (recordDaemonMem cfg before w m) pid) ∧
        ∀ pid ∈ r.cleared, before.netns pid = some w.ns) ∧
  ∀ pid m', call.Foreign pid → step cfg m call = some m' → Flagged cfg m pid → Flagged cfg m' pid

/-- No window of another namespace is flagged when a worker looks. -/
def Clean (m : Monitor) : Call → Prop
  | .record _ _ => True
  | .recycle w before _ => w.backend = "lua_bridge" → ∀ pid, Flagged cfg m pid → before.netns pid = some w.ns

end settings

variable {cfg : Settings} {m : Monitor} {pid : Nat} {w : Worker} {world before after : World}

theorem shouldSample_windows (m : Monitor) (now : ℚ) : (shouldSample cfg m now).2.windows = m.windows := by
  rw [shouldSample]
  split
  · rfl
  · split <;> rfl

theorem get?_recordPid {other : Nat} (hne : pid ≠ other) :
    (recordPid cfg world m other).windows.get? pid = m.windows.get? pid := by
  rw [recordPid]
  split
  · rfl
  · rw [Dict.get?_set, if_neg hne]

theorem get?_recordPids {pids : List Nat} (hmem : pid ∉ pids) :
    (pids.foldl (recordPid cfg world) m).windows.get? pid = m.windows.get? pid := by
  induction pids generalizing m with
  | nil => rfl
  | cons other pids ih =>
      rw [List.mem_cons, not_or] at hmem
      rw [List.foldl_cons, ih hmem.2, get?_recordPid hmem.1]

/-- A worker samples only pids of its own namespace. -/
theorem get?_recordDaemonMem (hforeign : world.netns pid ≠ some w.ns) :
    (recordDaemonMem cfg world w m).windows.get? pid = m.windows.get? pid := by
  have hmem : pid ∉ world.found w.ns := fun h => hforeign (world.found_netns w.ns pid h)
  rw [recordDaemonMem]
  split
  · rfl
  · have hwindows : (shouldSample cfg m world.checkedAt).2.windows = m.windows :=
      shouldSample_windows m world.checkedAt
    split
    next heq =>
      rw [heq] at hwindows
      rw [hwindows]
    next heq =>
      rw [heq] at hwindows
      rw [← hwindows, recordNs]
      split
      · rfl
      · exact get?_recordPids hmem

theorem flagged_recordDaemonMem (hforeign : world.netns pid ≠ some w.ns) :
    Flagged cfg (recordDaemonMem cfg world w m) pid ↔ Flagged cfg m pid := by
  rw [Flagged, get?_recordDaemonMem hforeign, Flagged]

/-- The candidates are the flagged pids. -/
theorem mem_candidates : pid ∈ (recycleCandidates cfg m).map Prod.fst ↔ Flagged cfg m pid := by
  rw [recycleCandidates, List.mem_map, Flagged]
  constructor
  · rintro ⟨⟨_, reason⟩, hmem, rfl⟩
    obtain ⟨⟨p, samples⟩, hentry, heq⟩ := List.mem_filterMap.mp hmem
    obtain ⟨r, hreason, heq⟩ := Option.map_eq_some_iff.mp heq
    cases heq
    exact ⟨samples, (Dict.get?_eq_some_iff _ _ _).mpr hentry, Option.isSome_iff_exists.mpr ⟨_, hreason⟩⟩
  · rintro ⟨samples, hget, hsome⟩
    obtain ⟨reason, hreason⟩ := Option.isSome_iff_exists.mp hsome
    refine ⟨(pid, reason), List.mem_filterMap.mpr ⟨(pid, samples), ?_, ?_⟩, rfl⟩
    · exact (Dict.get?_eq_some_iff _ _ _).mp hget
    · exact Option.map_eq_some_iff.mpr ⟨reason, hreason, rfl⟩

/-- What a call of _maybe_recycle does under the bridge: it clears the flagged
windows, and reboots when there are any. -/
theorem maybeRecycle_spec (hbridge : w.backend = "lua_bridge") :
    (∀ pid, pid ∈ (maybeRecycle cfg before after w m).cleared ↔
      Flagged cfg (recordDaemonMem cfg before w m) pid) ∧
    ((maybeRecycle cfg before after w m).rebooted = true ↔
      ∃ pid, Flagged cfg (recordDaemonMem cfg before w m) pid) := by
  have hiff : ∀ pid, pid ∈ (recycleCandidates cfg (recordDaemonMem cfg before w m)).map Prod.fst ↔
      Flagged cfg (recordDaemonMem cfg before w m) pid := fun pid => mem_candidates
  rw [maybeRecycle, if_neg (not_not.mpr hbridge)]
  dsimp only
  split
  next hnil =>
    rw [hnil] at hiff
    refine ⟨hiff, iff_of_false Bool.false_ne_true ?_⟩
    rintro ⟨pid, hflag⟩
    exact List.not_mem_nil ((hiff pid).mpr hflag)
  next hsome =>
    obtain ⟨pid, hpid⟩ := List.exists_mem_of_ne_nil _ hsome
    exact ⟨hiff, iff_of_true rfl ⟨pid, (hiff pid).mp hpid⟩⟩

theorem hits_iff (m : Monitor) (call : Call) : Hits cfg m call ↔ Clean cfg m call := by
  cases call with
  | record w world =>
      refine iff_of_true ⟨trivial, fun pid m' hforeign hstep hflag => ?_⟩ trivial
      obtain rfl := Option.some.inj hstep
      exact (flagged_recordDaemonMem hforeign).mpr hflag
  | recycle w before after =>
      by_cases hbridge : w.backend = "lua_bridge"
      · obtain ⟨hcleared, hrebooted⟩ := @maybeRecycle_spec cfg m w before after hbridge
        constructor
        · rintro ⟨⟨-, howns⟩, -⟩ - pid hflag
          by_contra hforeign
          exact hforeign (howns pid ((hcleared pid).mpr ((flagged_recordDaemonMem hforeign).mpr hflag)))
        · intro hclean
          have howns : ∀ pid, Flagged cfg (recordDaemonMem cfg before w m) pid → before.netns pid = some w.ns := by
            intro pid hflag
            by_contra hforeign
            exact hforeign (hclean hbridge pid ((flagged_recordDaemonMem hforeign).mp hflag))
          refine ⟨⟨fun hreboot => ?_, fun pid hpid => howns pid ((hcleared pid).mp hpid)⟩, ?_⟩
          · obtain ⟨pid, hflag⟩ := hrebooted.mp hreboot
            exact ⟨pid, howns pid hflag, hflag⟩
          · intro pid m' hforeign _ hflag
            exact absurd (hclean hbridge pid hflag) hforeign.1
      · refine iff_of_true ⟨?_, ?_⟩ (fun h => absurd h hbridge)
        · dsimp only
          rw [maybeRecycle, if_pos hbridge]
          exact ⟨fun h => absurd h Bool.false_ne_true, fun pid hpid => absurd hpid List.not_mem_nil⟩
        · intro pid m' _ hstep hflag
          rw [step, maybeRecycle, if_pos hbridge] at hstep
          obtain rfl := Option.some.inj hstep
          exact hflag

/-- While all calls hit their own daemons, a flag stays through the calls of
the workers of other namespaces. -/
theorem flagged_run {m' : Monitor} {calls : List Call} (hhits : Along (step cfg) (Hits cfg) m calls)
    (hforeign : ∀ call ∈ calls, call.Foreign pid) (hrun : run (step cfg) m calls = some m')
    (hflag : Flagged cfg m pid) : Flagged cfg m' pid := by
  have hothers : Along (step cfg) (fun _ call => call.Foreign pid) m calls := along_of_forall hforeign
  have hboth := Along.and hhits hothers
  exact along_invariant (P := fun m => Flagged cfg m pid) (fun _ _ _ hp hc hs => hc.1.2 pid _ hc.2 hs hp)
    hflag hboth hrun

/-- Of any interleaving of the calls, all hit their own daemons exactly when no
worker looks while a window of another namespace is flagged. -/
theorem hits_along_iff (cfg : Settings) (m : Monitor) (calls : List Call) :
    (Along (step cfg) (Hits cfg) m calls ∧ ∀ pid m', (∀ call ∈ calls, call.Foreign pid) →
        run (step cfg) m calls = some m' → Flagged cfg m pid → Flagged cfg m' pid) ↔
      Along (step cfg) (Clean cfg) m calls := by
  have heq : Hits cfg = Clean cfg := funext fun m => funext fun call => propext (hits_iff m call)
  rw [← heq]
  exact ⟨And.left, fun h => ⟨h, fun _ _ hforeign hrun hflag => flagged_run h hforeign hrun hflag⟩⟩

/-- Pid 3 runs in the first namespace, and pid 7, with 600 MiB, in the second. -/
def twoDaemons : World where
  netns pid := if pid = 3 then some "bs-0" else if pid = 7 then some "bs-1" else none
  found ns := if ns = "bs-0" then [3] else if ns = "bs-1" then [7] else []
  rss pid := if pid = 7 then 600 * 1024 * 1024 else 1024
  checkedAt := 0
  sampledAt := fun _ => 0
  found_netns := by
    intro ns pid hpid
    split at hpid
    next h => rw [List.mem_singleton.mp hpid, h]; rfl
    next =>
      split at hpid
      next h => rw [List.mem_singleton.mp hpid, h]; rfl
      next => cases hpid

/-- The worker of the first namespace reboots its daemon for the second one. -/
theorem reboots_for_other : ¬ Along (step {}) (Hits {}) {}
    [.record ⟨"bs-1", "lua_bridge"⟩ twoDaemons, .recycle ⟨"bs-0", "lua_bridge"⟩ twoDaemons twoDaemons] := by
  intro h
  have hclean := (hits_iff _ _).mp (h.2 _ rfl).1 rfl 7 ⟨[⟨0, 600 * 1024 * 1024⟩], by decide +kernel, by decide +kernel⟩
  exact absurd hclean (by decide)

end Blockchecks.MemoryMonitor
