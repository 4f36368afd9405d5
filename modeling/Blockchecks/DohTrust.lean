import Blockchecks.DnsSecure

namespace Blockchecks.DohTrust

open StrategyText OrderedDict DnsSecure

variable {cfg : Config} {c : DnsRunCache} {domain dohUrl url : String} {net : Net} {w : Write} {writes : List Write}

def Source.Trusted (cfg : Config) : Source → Prop
  | .answered url => dohIsTrusted cfg url = true
  | .stored => True

def EmptyOrTrusted (cfg : Config) (url : String) : Prop := url = "" ∨ dohIsTrusted cfg url = true

/-- No entry and no remembered server comes from an untrusted resolver. -/
structure Inv (cfg : Config) (c : DnsRunCache) : Prop where
  entries : ∀ domain e, c.entries.get? domain = some e → Source.Trusted cfg e.source
  server : EmptyOrTrusted cfg c.dohServer

def Good (cfg : Config) : Write → Prop
  | .fresh dohServer => EmptyOrTrusted cfg dohServer
  | .server url => EmptyOrTrusted cfg url
  | .entry _ e => Source.Trusted cfg e.source
  | .drop _ => True

theorem inv_empty (cfg : Config) (pins : Dict String String) : Inv cfg { pins } :=
  ⟨fun _ _ h => (by cases h), Or.inl rfl⟩

/-- The invariant survives exactly the good assignments. -/
theorem inv_apply (h : Inv cfg c) (w : Write) : Inv cfg (w.apply c) ↔ Good cfg w := by
  cases w with
  | fresh dohServer => exact ⟨Inv.server, fun hgood => ⟨fun _ _ h => (by cases h), hgood⟩⟩
  | server url => exact ⟨Inv.server, fun hgood => ⟨h.entries, hgood⟩⟩
  | entry domain e =>
      have hget := Dict.get?_set c.entries domain
      constructor
      · intro hinv
        exact hinv.entries domain e (by rw [Write.apply, hget, if_pos rfl])
      · refine fun hgood => ⟨fun d e' he' => ?_, h.server⟩
        rw [Write.apply, hget] at he'
        split at he'
        · obtain rfl := Option.some.inj he'
          exact hgood
        · exact h.entries d e' he'
  | drop domain =>
      refine ⟨fun _ => trivial, fun _ => ⟨fun d e' he' => ?_, h.server⟩⟩
      rw [Write.apply, Dict.get?_erase] at he'
      split at he'
      · cases he'
      · exact h.entries d e' he'

/-- The caches that a list of assignments passes through. -/
def reached (c : DnsRunCache) : List Write → List DnsRunCache
  | [] => [c]
  | w :: writes => c :: reached (w.apply c) writes

theorem inv_reached (h : Inv cfg c) (writes : List Write) :
    (∀ c' ∈ reached c writes, Inv cfg c') ↔ ∀ w ∈ writes, Good cfg w := by
  induction writes generalizing c with
  | nil =>
      refine iff_of_true (fun c' hc' => ?_) (fun w hw => absurd hw List.not_mem_nil)
      rw [List.mem_singleton.mp hc']
      exact h
  | cons w writes ih =>
      rw [reached, List.forall_mem_cons, List.forall_mem_cons, and_iff_right h]
      constructor
      · intro hall
        have hnext : Inv cfg (w.apply c) := hall _ (by cases writes <;> exact List.mem_cons_self)
        exact ⟨(inv_apply h w).mp hnext, (ih hnext).mp hall⟩
      · rintro ⟨hw, hgood⟩
        exact (ih ((inv_apply h w).mpr hw)).mpr hgood

theorem inv_applyAll (h : Inv cfg c) (hgood : ∀ w ∈ writes, Good cfg w) : Inv cfg (applyAll c writes) := by
  induction writes generalizing c with
  | nil => exact h
  | cons w writes ih =>
      rw [List.forall_mem_cons] at hgood
      exact ih ((inv_apply h w).mpr hgood.1) hgood.2

theorem trusted_of_mem {p : String × String} (h : p ∈ trustedDohServers cfg) : dohIsTrusted cfg p.1 = true :=
  (List.mem_filter.mp h).2

theorem picked_trusted {probe : String → Answer} (h : pickWorkingDoh cfg probe = some url) :
    dohIsTrusted cfg url = true := by
  have hmem := List.mem_of_find?_eq_some h
  rcases mem_addAll.mp hmem with hfirst | hpool
  · split at hfirst
    next hdefault =>
      rw [List.mem_singleton.mp hfirst]
      exact hdefault.2
    next => cases hfirst
  · obtain ⟨p, hp, rfl⟩ := List.mem_map.mp hpool
    exact trusted_of_mem hp

theorem good_get {now : ℚ} : ∀ w ∈ (get cfg c domain now).1, Good cfg w := by
  intro w hw
  rw [DnsSecure.get] at hw
  split at hw
  · cases hw
  · split at hw
    · rw [List.mem_singleton.mp hw]
      trivial
    · cases hw

theorem good_rotate (net : Net) (domain url : String) (ips : List String) :
    ∀ w ∈ (rotate cfg net domain url ips).1, Good cfg w := by
  intro w hw
  rw [rotate] at hw
  split at hw
  next alt halt =>
    have htrusted := trusted_of_mem (List.mem_of_mem_filter (List.mem_of_find?_eq_some halt))
    rcases List.mem_cons.mp hw with rfl | hw
    · exact Or.inr htrusted
    · rw [List.mem_singleton.mp hw]
      exact htrusted
  next =>
    split at hw
    · rw [List.mem_singleton.mp hw]
      trivial
    · cases hw

/-- The domain has an entry that is not expired. -/
def Fresh (cfg : Config) (c : DnsRunCache) (domain : String) (now : ℚ) : Prop :=
  ((get cfg c domain now).2).getD [] ≠ []

/-- An untrusted argument does no harm where it is not asked, or where another
server is remembered and it does not answer. -/
def SafeResolve (cfg : Config) (net : Net) (c : DnsRunCache) (domain dohUrl : String) : Prop :=
  EmptyOrTrusted cfg dohUrl ∨ Fresh cfg c domain net.now ∨ (c.dohServer ≠ "" ∧ usable (net.ask dohUrl) = false)

theorem chosen_trusted (h : Inv cfg c) (hurl : EmptyOrTrusted cfg dohUrl)
    (hchosen : chooseUrl cfg net c dohUrl = some url) : dohIsTrusted cfg url = true := by
  rw [chooseUrl] at hchosen
  split at hchosen
  next hne =>
    obtain rfl := Option.some.inj hchosen
    exact hurl.resolve_left hne
  next =>
    split at hchosen
    next hne =>
      obtain rfl := Option.some.inj hchosen
      exact h.server.resolve_left hne
    next => exact picked_trusted hchosen

/-- A resolution makes good assignments exactly when it is safe. -/
theorem good_resolve (h : Inv cfg c) (net : Net) (domain dohUrl : String) :
    (∀ w ∈ (resolve cfg net c domain dohUrl).1, Good cfg w) ↔ SafeResolve cfg net c domain dohUrl := by
  rw [resolve]
  dsimp only
  by_cases hfresh : ((DnsSecure.get cfg c domain net.now).2).getD [] ≠ []
  · rw [if_pos hfresh]
    exact iff_of_true good_get (Or.inr (Or.inl hfresh))
  · rw [if_neg hfresh]
    cases hchosen : chooseUrl cfg net c dohUrl with
    | none =>
        have hempty : dohUrl = "" := by
          by_contra hne
          rw [chooseUrl, if_pos hne] at hchosen
          cases hchosen
        exact iff_of_true good_get (Or.inl (Or.inl hempty))
    | some url =>
        dsimp only
        rw [List.forall_mem_append, List.forall_mem_append, and_iff_right good_get]
        by_cases hurl : EmptyOrTrusted cfg dohUrl
        · have htrusted := chosen_trusted h hurl hchosen
          refine iff_of_true ⟨?_, ?_⟩ (Or.inl hurl)
          · intro w hw
            split at hw
            · rw [List.mem_singleton.mp hw]
              exact Or.inr htrusted
            · cases hw
          · intro w hw
            split at hw
            · rw [List.mem_singleton.mp hw]
              exact htrusted
            · exact good_rotate net domain url _ w hw
        · obtain ⟨hne, huntrusted⟩ := not_or.mp hurl
          rw [chooseUrl, if_pos hne] at hchosen
          obtain rfl := Option.some.inj hchosen
          have hsafe : SafeResolve cfg net c domain dohUrl ↔ c.dohServer ≠ "" ∧ usable (net.ask dohUrl) = false :=
            (or_iff_right hurl).trans (or_iff_right hfresh)
          rw [hsafe]
          refine and_congr ?_ ?_
          · by_cases hserver : c.dohServer = ""
            · rw [if_pos hserver, List.forall_mem_singleton]
              exact iff_of_false hurl (not_not.mpr hserver)
            · rw [if_neg hserver]
              exact iff_of_true (List.forall_mem_nil _) hserver
          · cases husable : usable (net.ask dohUrl) with
            | true =>
                rw [if_pos rfl, List.forall_mem_singleton]
                exact iff_of_false huntrusted (fun h => by cases h)
            | false =>
                rw [if_neg Bool.false_ne_true]
                exact iff_of_true (good_rotate net domain dohUrl _) rfl

theorem good_resolveAll (h : Inv cfg c) (hurl : EmptyOrTrusted cfg dohUrl) (nets : Nat → Net) (n : Nat)
    (domains : List String) : ∀ w ∈ resolveAll cfg nets dohUrl n c domains, Good cfg w := by
  induction domains generalizing c n with
  | nil => exact fun w hw => absurd hw List.not_mem_nil
  | cons domain domains ih =>
      have hfirst := (good_resolve h (nets n) domain dohUrl).mpr (Or.inl hurl)
      rw [resolveAll]
      exact List.forall_mem_append.mpr ⟨hfirst, ih (inv_applyAll h hfirst) (n + 1)⟩

theorem good_filterResolvable (h : Inv cfg c) (nets : Nat → Net) (n : Nat) (domains : List String) :
    ∀ w ∈ filterResolvableDomains cfg nets n c domains, Good cfg w := by
  induction domains generalizing c n with
  | nil => exact fun w hw => absurd hw List.not_mem_nil
  | cons domain domains ih =>
      have hfirst : ∀ w ∈ (if (c.pins.get? domain).any (· ≠ "") then []
          else (primaryIp cfg (nets n) c domain "").1), Good cfg w := by
        split
        · exact List.forall_mem_nil _
        · exact (good_resolve h (nets n) domain "").mpr (Or.inl (Or.inl rfl))
      rw [filterResolvableDomains]
      exact List.forall_mem_append.mpr ⟨hfirst, ih (inv_applyAll h hfirst) (n + 1)⟩

theorem good_prime (h : Inv cfg c) (probe : String → Answer) (nets : Nat → Net) (domains : List String)
    (dohUrl : String) :
    (∀ w ∈ prime cfg probe nets c domains dohUrl, Good cfg w) ↔ EmptyOrTrusted cfg dohUrl := by
  rw [prime]
  constructor
  · intro hall
    by_cases hempty : dohUrl = ""
    · exact Or.inl hempty
    · refine hall (.server dohUrl) (List.mem_append_left _ ?_)
      rw [if_pos hempty]
      exact List.mem_singleton_self _
  · intro hurl
    have hchosen : ∀ url, (if dohUrl ≠ "" then some dohUrl else pickWorkingDoh cfg probe) = some url →
        EmptyOrTrusted cfg url := by
      intro url heq
      split at heq
      next =>
        obtain rfl := Option.some.inj heq
        exact hurl
      next => exact Or.inr (picked_trusted heq)
    cases heq : (if dohUrl ≠ "" then some dohUrl else pickWorkingDoh cfg probe) with
    | none => exact good_resolveAll h (Or.inl rfl) nets 0 domains
    | some url =>
        have hfirst : ∀ w ∈ [Write.server url], Good cfg w := List.forall_mem_singleton.mpr (hchosen url heq)
        exact List.forall_mem_append.mpr
          ⟨hfirst, good_resolveAll (inv_applyAll h hfirst) (hchosen url heq) nets 0 domains⟩

theorem good_prepare (net : PrepareNet) (nets : Nat → Net) (domains : List String) (args : PrepareArgs) :
    (∀ w ∈ prepareDnsForRun cfg net nets domains args, Good cfg w) ↔
      (args.secureDns = true → EmptyOrTrusted cfg args.dohServer) := by
  rw [prepareDnsForRun]
  cases hsecure : args.secureDns with
  | false => exact iff_of_true (List.forall_mem_nil _) (fun h => by cases h)
  | true =>
      simp only [Bool.not_true, Bool.false_eq_true, if_false, forall_const]
      have hbegun : Good cfg (.fresh ((if args.dohServer ≠ "" then some args.dohServer
          else pickWorkingDoh cfg net.probe).getD "")) ↔ EmptyOrTrusted cfg args.dohServer := by
        by_cases hempty : args.dohServer = ""
        · rw [if_neg (not_not.mpr hempty)]
          refine iff_of_true ?_ (Or.inl hempty)
          cases hpick : pickWorkingDoh cfg net.probe with
          | none => exact Or.inl rfl
          | some url => exact Or.inr (picked_trusted hpick)
        · rw [if_pos hempty]
          exact Iff.rfl
      constructor
      · intro hall
        refine hbegun.mp (hall _ ?_)
        split
        · exact List.mem_singleton_self _
        · exact List.mem_append_left _ (List.mem_singleton_self _)
      · intro hurl
        have hfirst := hbegun.mpr hurl
        have hinv := (inv_apply (inv_empty cfg .empty) _).mpr hfirst
        split
        · exact List.forall_mem_singleton.mpr hfirst
        · refine List.forall_mem_append.mpr ⟨List.forall_mem_singleton.mpr hfirst, ?_⟩
          exact (good_prime hinv net.primeProbe nets domains _).mpr hinv.server

/-- When a call lets no untrusted resolver in. -/
def Safe (cfg : Config) (c : DnsRunCache) : Call → Prop
  | .prepare _ _ _ args => args.secureDns = true → EmptyOrTrusted cfg args.dohServer
  | .prime _ _ _ dohUrl => EmptyOrTrusted cfg dohUrl
  | .resolve net domain dohUrl | .primaryIp net domain dohUrl => SafeResolve cfg net c domain dohUrl
  | .candidates .. | .filterResolvable .. => True

theorem good_call (h : Inv cfg c) (call : Call) :
    (∀ w ∈ call.writes cfg c, Good cfg w) ↔ Safe cfg c call := by
  cases call with
  | prepare net nets domains args => exact good_prepare net nets domains args
  | prime probe nets domains dohUrl => exact good_prime h probe nets domains dohUrl
  | resolve net domain dohUrl | primaryIp net domain dohUrl => exact good_resolve h net domain dohUrl
  | candidates lookedAt net domain =>
      refine iff_of_true ?_ trivial
      rw [Call.writes, candidates]
      dsimp only
      split
      · exact good_get
      · exact List.forall_mem_append.mpr
          ⟨good_get, (good_resolve (inv_applyAll h good_get) net domain "").mpr (Or.inl (Or.inl rfl))⟩
  | filterResolvable nets domains => exact iff_of_true (good_filterResolvable h nets 0 domains) trivial

/-- The caches that a sequence of calls passes through, inside the calls too. -/
def runReached (cfg : Config) (c : DnsRunCache) : List Call → List DnsRunCache
  | [] => [c]
  | call :: calls =>
      reached c (call.writes cfg c) ++ runReached cfg (applyAll c (call.writes cfg c)) calls

/-- Every call is safe in the cache that it meets. -/
def SafeRun (cfg : Config) (c : DnsRunCache) : List Call → Prop
  | [] => True
  | call :: calls => Safe cfg c call ∧ SafeRun cfg (applyAll c (call.writes cfg c)) calls

theorem inv_runReached (h : Inv cfg c) (calls : List Call) :
    (∀ c' ∈ runReached cfg c calls, Inv cfg c') ↔ SafeRun cfg c calls := by
  induction calls generalizing c with
  | nil =>
      refine iff_of_true (fun c' hc' => ?_) trivial
      rw [List.mem_singleton.mp hc']
      exact h
  | cons call calls ih =>
      rw [runReached, List.forall_mem_append, inv_reached h, SafeRun, good_call h]
      refine and_congr_right (fun hsafe => ?_)
      exact ih (inv_applyAll h ((good_call h call).mpr hsafe))

/-- Untrusted resolvers stay out of the cache exactly while no call hands one
to a resolution that asks or remembers it. -/
theorem untrusted_kept_out_iff (cfg : Config) (pins : Dict String String) (calls : List Call) :
    (∀ c ∈ runReached cfg { pins } calls, Inv cfg c) ↔ SafeRun cfg { pins } calls :=
  inv_runReached (inv_empty cfg pins) calls

/-- Every server answers with one address. -/
def answering : Net where
  now := 0
  storedAt := 0
  probe _ := (["1.2.3.4"], "")
  ask _ := (["1.2.3.4"], "")
  records := []

/-- The untrusted resolver of the catalogue is asked and remembered. -/
theorem untrusted_remembered : ¬ ∀ c ∈ runReached {} {}
    [.resolve answering "example.com" "https://dns.yandex.ru/dns-query"], Inv {} c := by
  intro h
  have hsafe := ((inv_runReached (inv_empty {} .empty) _).mp h).1
  rcases hsafe with (hempty | htrusted) | hfresh | ⟨hserver, -⟩
  · exact absurd hempty (by decide)
  · exact absurd htrusted (by decide +kernel)
  · exact hfresh rfl
  · exact hserver rfl

end Blockchecks.DohTrust
