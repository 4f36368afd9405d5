import Blockchecks.OrderedDict

namespace Blockchecks.NsFirewall

open OrderedDict

structure RuleSpec where
  proto : String
  dport : String
  queue : Int
  multiport : Bool := false
  bypass : Bool := true
  dstIp : Option String := none
  deriving DecidableEq

def ruleBody (spec : RuleSpec) : List String :=
  ["OUTPUT", "-p", spec.proto] ++
    (if spec.dstIp.getD "" ≠ "" then ["-d", spec.dstIp.getD ""] else []) ++
    (if spec.multiport then ["-m", "multiport", "--dports", spec.dport] else ["--dport", spec.dport]) ++
    ["-j", "NFQUEUE", "--queue-num", toString spec.queue] ++
    (if spec.bypass then ["--queue-bypass"] else [])

def deleteArgs (spec : RuleSpec) : List String := "-D" :: ruleBody spec

/-- What subprocess.run makes of a command. -/
inductive Outcome where
  | exit (returncode : Int)
  | timeout
  | osError
  deriving DecidableEq

/-- A timeout leaves _run as a plain RuntimeError, the class that IptablesError extends. -/
inductive Raised where
  | iptablesError
  | runtimeError
  | osError
  deriving DecidableEq

/-- The classes of the handlers in detach and detach_one: OSError and SubprocessError. -/
def Raised.handled : Raised → Bool
  | .osError => true
  | .iptablesError | .runtimeError => false

/-- The tracker of a namespace, with the arguments of all iptables commands it has run. -/
structure Tracker where
  rules : Dict RuleSpec (List String) := .empty
  dirty : Bool := false
  issued : List (List String) := []

abbrev Result (α : Type) := Except Raised α × Tracker

section outcomes

-- what becomes of the n-th command
variable (outcome : Nat → Outcome)

/-- _run, with the return code for a result. -/
def runCommand (t : Tracker) (args : List String) (check : Bool) : Result Int :=
  let t' := { t with issued := t.issued ++ [args] }
  match outcome t.issued.length with
  | .timeout => (.error .runtimeError, t')
  | .osError => (.error .osError, t')
  | .exit returncode =>
      if check && returncode != 0 then (.error .iptablesError, t') else (.ok returncode, t')

def detachLoop (t : Tracker) : List (List String) → Result Unit
  | [] => (.ok (), { t with rules := .empty })
  | args :: rest => match runCommand outcome t args false with
    | (.error raised, t) => if raised.handled then detachLoop t rest else (.error raised, t)
    | (.ok _, t) => detachLoop t rest

def detach (t : Tracker) : Result Unit := detachLoop outcome t t.rules.values.reverse

/-- The part of attach behind the check for foreign rules. -/
def addRule (t : Tracker) (spec : RuleSpec) : Result Unit :=
  if spec ∈ t.rules.keys then (.ok (), t)
  else match runCommand outcome t ("-A" :: ruleBody spec) true with
    | (.error raised, t) => (.error raised, t)
    | (.ok _, t) =>
        let t := { t with rules := t.rules.set spec (deleteArgs spec) }
        match runCommand outcome t ("-C" :: ruleBody spec) false with
        | (.error raised, t) => (.error raised, t)
        | (.ok verify, t) =>
            if verify ≠ 0 then (.error .iptablesError, { t with rules := t.rules.erase spec }) else (.ok (), t)

def attach (t : Tracker) (spec : RuleSpec) : Result Unit :=
  if t.dirty then match detach outcome t with
    | (.error raised, t) => (.error raised, t)
    | (.ok _, t) => addRule outcome { t with dirty := false } spec
  else addRule outcome t spec

def detachOne (t : Tracker) (spec : RuleSpec) : Result Unit :=
  match t.rules.get? spec with
  | none => (.ok (), t)
  | some args => match runCommand outcome { t with rules := t.rules.erase spec } args false with
    | (.error raised, t) => if raised.handled then (.ok (), t) else (.error raised, t)
    | (.ok _, t) => (.ok (), t)

inductive Call where
  | attach (spec : RuleSpec)
  | detachOne (spec : RuleSpec)
  | markDirty

/-- The tracker that a call leaves, also when it raises. -/
def step (t : Tracker) : Call → Tracker
  | .attach spec => (attach outcome t spec).2
  | .detachOne spec => (detachOne outcome t spec).2
  | .markDirty => { t with dirty := true }

def runCalls (calls : List Call) : Tracker := calls.foldl (step outcome) {}

/-- The tracker of a namespace leaves the registry before its rules go. -/
def dropNsFirewall (registry : Dict String Tracker) (nsName : String) : Except Raised Unit × Dict String Tracker :=
  match registry.get? nsName with
  | none => (.ok (), registry)
  | some t => ((detach outcome t).1, registry.erase nsName)

structure Namespace where
  name : String
  vethH : String
  natSubnet : String
  outIface : String

def destroyCommands (ns : Namespace) : List (List String) :=
  [["ip", "netns", "delete", ns.name],
    ["ip", "link", "delete", ns.vethH],
    ["iptables", "-D", "FORWARD", "-i", ns.vethH, "-j", "ACCEPT"],
    ["iptables", "-D", "FORWARD", "-o", ns.vethH, "-j", "ACCEPT"],
    ["iptables", "-t", "nat", "-D", "POSTROUTING", "-s", ns.natSubnet, "-o", ns.outIface, "-j", "MASQUERADE"],
    ["rm", "-rf", "/etc/netns/" ++ ns.name]]

/-- _destroy_one, whose worker and process clean-up raises nothing: the commands that
_run_destroy gets to run. -/
def destroyOne (registry : Dict String Tracker) (ns : Namespace) : Except Raised Unit × List (List String) :=
  match (dropNsFirewall outcome registry ns.name).1 with
  | .error raised => (.error raised, [])
  | .ok () => (.ok (), destroyCommands ns)

/-- Every tracked rule is deleted once, the last one first, nothing is left or raised, and
the namespace goes. -/
def TornDown (t : Tracker) : Prop :=
  detach outcome t =
      (.ok (), ⟨.empty, t.dirty, t.issued ++ (t.rules.keys.map deleteArgs).reverse⟩) ∧
    ∀ registry ns, registry.get? ns.name = some t → destroyOne outcome registry ns = (.ok (), destroyCommands ns)

variable {outcome} {t : Tracker}

/-- The commands that delete the tracked rules are theirs. -/
def Tracked (t : Tracker) : Prop := ∀ e ∈ t.rules.entries, e.2 = deleteArgs e.1

theorem Tracked.set {t : Tracker} (h : Tracked t) (spec : RuleSpec) (issued : List (List String)) :
    Tracked { t with rules := t.rules.set spec (deleteArgs spec), issued := issued } := by
  rintro ⟨k, args⟩ he
  have hg := (Dict.get?_eq_some_iff _ k args).mpr he
  rw [Dict.get?_set] at hg
  split at hg
  next hk => rw [hk]; exact (Option.some.inj hg).symm
  next => exact h _ ((Dict.get?_eq_some_iff _ k args).mp hg)

theorem Tracked.erase {t : Tracker} (h : Tracked t) (spec : RuleSpec) (issued : List (List String)) :
    Tracked { t with rules := t.rules.erase spec, issued := issued } :=
  fun _ he => h _ (List.mem_of_mem_filter he)

theorem runCommand_tracker (t : Tracker) (args : List String) (check : Bool) :
    (runCommand outcome t args check).2 = { t with issued := t.issued ++ [args] } := by
  rw [runCommand]
  split
  · rfl
  · rfl
  · split <;> rfl

theorem runCommand_eq (t : Tracker) (args : List String) (check : Bool) :
    runCommand outcome t args check =
      ((runCommand outcome t args check).1, { t with issued := t.issued ++ [args] }) :=
  Prod.ext rfl (runCommand_tracker t args check)

/-- A command of the loop raises past its handler only by a timeout. -/
theorem detachLoop_cons (t : Tracker) (args : List String) (rest : List (List String)) :
    detachLoop outcome t (args :: rest) =
      if outcome t.issued.length = .timeout then (.error .runtimeError, { t with issued := t.issued ++ [args] })
      else detachLoop outcome { t with issued := t.issued ++ [args] } rest := by
  rw [detachLoop, runCommand]
  cases outcome t.issued.length <;> rfl

/-- A loop that ends has cleared the map, one that raises has left it alone. -/
theorem detachLoop_tracked (todo : List (List String)) (h : Tracked t) :
    Tracked (detachLoop outcome t todo).2 := by
  induction todo generalizing t with
  | nil => exact fun _ he => absurd he List.not_mem_nil
  | cons args rest ih =>
      rw [detachLoop_cons]
      split
      · exact h
      · exact ih h

theorem addRule_tracked (h : Tracked t) (spec : RuleSpec) : Tracked (addRule outcome t spec).2 := by
  rw [addRule]
  split
  · exact h
  rw [runCommand_eq]
  cases (runCommand outcome t _ true).1 with
  | error raised => exact h
  | ok returncode =>
      simp only
      rw [runCommand_eq]
      cases (runCommand outcome _ _ false).1 with
      | error raised => exact h.set spec _
      | ok verify =>
          simp only
          split
          · exact Tracked.erase (h.set spec t.issued) spec _
          · exact h.set spec _

theorem step_tracked (h : Tracked t) (call : Call) : Tracked (step outcome t call) := by
  cases call with
  | markDirty => exact h
  | attach spec =>
      rw [step, attach]
      split
      · have hd : Tracked (detach outcome t).2 := detachLoop_tracked _ h
        generalize detach outcome t = r at hd
        obtain ⟨raised | _, t'⟩ := r
        · exact hd
        · exact addRule_tracked (t := { t' with dirty := false }) hd spec
      · exact addRule_tracked h spec
  | detachOne spec =>
      rw [step, detachOne]
      cases t.rules.get? spec with
      | none => exact h
      | some args =>
          simp only
          rw [runCommand_eq]
          cases (runCommand outcome _ args false).1 with
          | ok returncode => exact h.erase spec _
          | error raised =>
              simp only
              split <;> exact h.erase spec _

theorem runCalls_tracked (outcome : Nat → Outcome) (calls : List Call) : Tracked (runCalls outcome calls) :=
  List.foldlRecOn calls (step outcome) (fun _ he => absurd he List.not_mem_nil) fun _ h call _ => step_tracked h call

theorem Tracked.values (h : Tracked t) : t.rules.values = t.rules.keys.map deleteArgs := by
  rw [Dict.values, Dict.keys, List.map_map]
  exact List.map_congr_left h

theorem detachLoop_ok (t : Tracker) (todo : List (List String))
    (h : ∀ i < todo.length, outcome (t.issued.length + i) ≠ .timeout) :
    detachLoop outcome t todo = (.ok (), { t with rules := .empty, issued := t.issued ++ todo }) := by
  induction todo generalizing t with
  | nil => simp [detachLoop]
  | cons args rest ih =>
      have hhead : outcome t.issued.length ≠ .timeout := h 0 (Nat.zero_lt_succ _)
      rw [detachLoop_cons, if_neg hhead, ih]
      · simp
      · intro i hi
        have := h (i + 1) (Nat.succ_lt_succ hi)
        simpa [Nat.add_assoc, Nat.add_comm 1] using this

theorem detachLoop_raises (t : Tracker) (todo : List (List String)) {i : Nat} (hi : i < todo.length)
    (h : outcome (t.issued.length + i) = .timeout) : (detachLoop outcome t todo).1 = .error .runtimeError := by
  induction todo generalizing t i with
  | nil => exact absurd hi (Nat.not_lt_zero i)
  | cons args rest ih =>
      rw [detachLoop_cons]
      split
      · rfl
      next hne =>
        cases i with
        | zero => exact absurd h hne
        | succ i =>
            apply ih _ (Nat.lt_of_succ_lt_succ hi)
            simpa [Nat.add_assoc, Nat.add_comm 1] using h

theorem detach_tornDown (h : detach outcome t =
    (.ok (), ⟨.empty, t.dirty, t.issued ++ (t.rules.keys.map deleteArgs).reverse⟩)) : TornDown outcome t :=
  ⟨h, fun registry ns hr => by rw [destroyOne, dropNsFirewall, hr]; simp only [h]⟩

/-- Only a timeout gets past the handler of detach: it leaves _run as a RuntimeError. -/
theorem detach_complete_iff (outcome : Nat → Outcome) (calls : List Call) :
    TornDown outcome (runCalls outcome calls) ↔ ∀ i < (runCalls outcome calls).rules.size,
      outcome ((runCalls outcome calls).issued.length + i) ≠ .timeout := by
  have htracked := runCalls_tracked outcome calls
  generalize runCalls outcome calls = t at htracked
  have hlen : t.rules.values.reverse.length = t.rules.size := by simp [Dict.values, Dict.size]
  constructor
  · intro h i hi hto
    have hraise := detachLoop_raises t _ (hlen.symm ▸ hi) hto
    rw [← detach, h.1] at hraise
    exact absurd hraise (by simp)
  · intro h
    apply detach_tornDown
    rw [detach, detachLoop_ok t _ (hlen.symm ▸ h), htracked.values]

/-- One rule goes in and its deletion times out. -/
theorem timeout_keeps_rule : ¬ ∀ (outcome : Nat → Outcome) (calls : List Call),
    TornDown outcome (runCalls outcome calls) := by
  intro h
  have ht := (h (fun n => if n = 2 then .timeout else .exit 0) [.attach ⟨"tcp", "443", 200, false, true, none⟩]).1
  exact absurd (congrArg Prod.fst ht) (by decide)

end outcomes

end Blockchecks.NsFirewall
