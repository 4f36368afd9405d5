import Blockchecks.DnsCandidates
import Blockchecks.HostsTrip
import Blockchecks.Runs

namespace Blockchecks.DnsPinService

open OrderedDict StrategyText DnsSecure DnsCandidates HostsPins HostsTrip Runs

/-! The pins of a cache, and the file that outlives it. -/

/-- {d: ip for d, ip in pins.items() if ip} -/
def nonEmpty (pins : Dict String String) : Dict String String where
  entries := pins.entries.filter (fun e => decide (e.2 ≠ ""))
  nodup := pins.nodup.sublist (List.filter_sublist.map Prod.fst)

def setPins (c : DnsRunCache) (pins : Dict String String) : DnsRunCache := { c with pins := nonEmpty pins }

def addPin (c : DnsRunCache) (domain ip : String) : DnsRunCache :=
  if ip = "" then c else { c with pins := c.pins.set domain ip }

/-- What an auto-pin meets: at each turn of its loop the time and the network of the lookup, and
the addresses that pass the probes of a domain. -/
structure Trial where
  lookedAt : Nat → ℚ
  nets : Nat → Net
  l3Ok : String → String → Bool
  probe : String → String → Bool

def Trial.works (trial : Trial) (domain ip : String) : Bool := trial.l3Ok domain ip && trial.probe domain ip

/-- The cache in the loop, and the pins to be saved. -/
structure Pinning where
  cache : DnsRunCache
  updates : Dict String String

/-- The first candidate that works, the pin before the others. -/
def pick (works : String → Bool) (existing : Option String) (ips : List String) : Option String :=
  if ips = [] then none else ((addAll existing.toList ips).find? works).filter (· ≠ "")

/-- The body of the loop, once the candidates of the domain are there. -/
def pinDomain (works : String → Bool) (existing : Option String) (ips : List String) (domain : String)
    (s : Pinning) : Pinning :=
  match pick works existing ips with
  | some ip =>
      { cache := if s.cache.pins.get? domain ≠ some ip then addPin s.cache domain ip else s.cache
        updates := s.updates.set domain ip }
  | none => match existing with
      | some ip => if ips = [] then s else { s with cache := addPin s.cache domain ip }
      | none => s

section config

variable (cfg : Config) (trial : Trial) (pins : Dict String String)

def turn (n : Nat) (s : Pinning) (domain : String) : Pinning :=
  let found := candidates cfg (trial.lookedAt n) (trial.nets n) s.cache domain
  pinDomain (trial.works domain) ((pins.get? domain).filter (· ≠ "")) found.2 domain
    { s with cache := applyAll s.cache found.1 }

def pinDomains : Nat → Pinning → List String → Pinning
  | _, s, [] => s
  | n, s, domain :: domains => pinDomains (n + 1) (turn cfg trial pins n s domain) domains

def autoPinIps (filePins : Dict String String) (c : DnsRunCache) : Pinning :=
  let pins := mergePins filePins c.pins
  pinDomains cfg trial pins 0 ⟨setPins c pins, .empty⟩ (c.entries.keys.filter (· ≠ ""))

/-- dict.__eq__ -/
def sameDict (a b : Dict String String) : Bool :=
  decide (a.size = b.size) && a.entries.all (fun e => decide (b.get? e.1 = some e.2))

/-- The text that save_pins writes, where the pins are new. -/
def saved (filePins updates : Dict String String) : Option (List Char) :=
  if sameDict (mergePins filePins updates) filePins then none else some (hostsText (mergePins filePins updates))

end config

/-! The life of the file, over the launches that read and write it. -/

structure State where
  files : String → Option (List Char)
  pinnedPath : String := ""
  cache : Option DnsRunCache := none

/-- What touches the pins. A write that fails leaves the file. -/
inductive Action where
  | launch (pinnedPath : String) (net : PrepareNet) (nets : Nat → Net) (domains : List String) (args : PrepareArgs)
  | resolve (net : Net) (domain dohUrl : String)
  | syncDns (records : Dict String Value) (written : Bool)
  | l3Pick (domain ip : String)
  | flushL3Pins (written : Bool)
  | autoPin (trial : Trial) (written : Bool)

def loadPins (s : State) (path : String) : Dict String String :=
  if path = "" then .empty else readPins (s.files path)

/-- {domain: [ip] for domain, ip in pins.items() if ip} -/
def l3Records (pins : Dict String String) : Dict String Value where
  entries := (nonEmpty pins).entries.map (fun e => (e.1, .addresses [e.2]))
  nodup := by
    rw [List.map_map]
    exact (nonEmpty pins).nodup

def State.write (s : State) (path : String) (text : List Char) : State :=
  { s with files := Function.update s.files path (some text) }

section config

variable (cfg : Config) (hostsFile : String)

def prepared (s : State) (path : String) (net : PrepareNet) (nets : Nat → Net) (domains : List String)
    (args : PrepareArgs) : DnsRunCache :=
  let c := applyAll {} (prepareDnsForRun cfg net nets domains args)
  if path = "" then c else setPins c (loadPins s path)

def writeHostsFile (s : State) (records : Dict String Value) (written : Bool) : State :=
  if written then s.write hostsFile (writeHosts (s.files hostsFile) records) else s

def savePins (s : State) (updates : Dict String String) (written : Bool) : State :=
  match saved (loadPins s s.pinnedPath) updates with
  | some text => if s.pinnedPath ≠ "" ∧ written then s.write s.pinnedPath text else s
  | none => s

/-- Without secure DNS there is no cache. -/
def step (s : State) : Action → Option State
  | .launch path net nets domains args =>
      some { s with
        pinnedPath := path
        cache := if args.secureDns then some (prepared cfg s path net nets domains args) else none }
  | .resolve net domain dohUrl =>
      s.cache.map (fun c => { s with cache := some (applyAll c (DnsSecure.resolve cfg net c domain dohUrl).1) })
  | .syncDns records written => some (writeHostsFile hostsFile s records written)
  | .l3Pick domain ip => s.cache.map (fun c => { s with cache := some (addPin c domain ip) })
  | .flushL3Pins written =>
      s.cache.map (fun c => if c.pins.entries = [] then s else writeHostsFile hostsFile s (l3Records c.pins) written)
  | .autoPin trial written =>
      s.cache.map (fun c =>
        let r := autoPinIps cfg trial (loadPins s s.pinnedPath) c
        savePins { s with cache := some r.cache } r.updates written)

end config

section pins

variable {c : DnsRunCache} {domain ip k : String} {ips : List String} {works : String → Bool}

theorem get?_nonEmpty (pins : Dict String String) (k : String) :
    (nonEmpty pins).get? k = (pins.get? k).filter (· ≠ "") := by
  apply Option.ext
  intro ip
  rw [Dict.get?_eq_some_iff, Option.filter_eq_some_iff, Dict.get?_eq_some_iff]
  exact List.mem_filter

theorem get?_addPin (c : DnsRunCache) (domain ip k : String) :
    (addPin c domain ip).pins.get? k = if k = domain ∧ ip ≠ "" then some ip else c.pins.get? k := by
  rw [addPin]
  by_cases hip : ip = ""
  · rw [if_pos hip, if_neg (fun h => h.2 hip)]
  · rw [if_neg hip]
    change (c.pins.set domain ip).get? k = _
    rw [Dict.get?_set]
    simp only [ne_eq, hip, not_false_eq_true, and_true]

theorem get?_addPin_other (h : k ≠ domain) : (addPin c domain ip).pins.get? k = c.pins.get? k := by
  rw [get?_addPin, if_neg (fun hk => h hk.1)]

/-- Only the preparation of a run begins a new cache. -/
def Continues (writes : List Write) : Prop := ∀ w ∈ writes, ∀ server, w ≠ .fresh server

theorem applyAll_pins {writes : List Write} (h : Continues writes) (c : DnsRunCache) :
    (applyAll c writes).pins = c.pins := by
  induction writes generalizing c with
  | nil => rfl
  | cons w writes ih =>
      have hrest := ih (fun v hv => h v (List.mem_cons_of_mem w hv)) (w.apply c)
      refine hrest.trans ?_
      cases w with
      | fresh server => exact absurd rfl (h _ List.mem_cons_self server)
      | _ => rfl

theorem continues_append {writes more : List Write} (h : Continues writes) (hmore : Continues more) :
    Continues (writes ++ more) :=
  List.forall_mem_append.mpr ⟨h, hmore⟩

theorem continues_get (cfg : Config) (c : DnsRunCache) (domain : String) (now : ℚ) :
    Continues (get cfg c domain now).1 := by
  intro w hw server heq
  rcases get_cases cfg c domain now with ⟨hget, -⟩ | hget | ⟨e, hget, -⟩ <;> rw [hget] at hw
  · cases hw
  · rw [List.mem_singleton.mp hw] at heq
    cases heq
  · cases hw

theorem continues_rotate (cfg : Config) (net : Net) (domain url : String) (ips : List String) :
    Continues (rotate cfg net domain url ips).1 := by
  intro w hw server heq
  subst heq
  rw [rotate] at hw
  split at hw
  · simp at hw
  · split at hw <;> simp at hw

theorem continues_resolve (cfg : Config) (net : Net) (c : DnsRunCache) (domain dohUrl : String) :
    Continues (DnsSecure.resolve cfg net c domain dohUrl).1 := by
  rw [DnsSecure.resolve]
  dsimp only
  split
  · exact continues_get cfg c domain net.now
  · split
    · exact continues_get cfg c domain net.now
    next url _ =>
      refine continues_append (continues_append (continues_get cfg c domain net.now) ?_) ?_
      · split
        · simp [Continues]
        · simp [Continues]
      · split
        · simp [Continues]
        · exact continues_rotate cfg net domain url _

theorem continues_candidates (cfg : Config) (lookedAt : ℚ) (net : Net) (c : DnsRunCache) (domain : String) :
    Continues (candidates cfg lookedAt net c domain).1 := by
  rw [candidates]
  dsimp only
  split
  · exact continues_get cfg c domain lookedAt
  · exact continues_append (continues_get cfg c domain lookedAt) (continues_resolve cfg net _ domain "")

/-! One turn of the loop. -/

theorem addAll_head (seen : String) (ips : List String) : ∃ rest, addAll [seen] ips = seen :: rest := by
  have hprefix (ips : List String) : ∀ seen rest, ∃ more, addAll (seen :: rest) ips = seen :: more := by
    induction ips with
    | nil => exact fun seen rest => ⟨rest, rfl⟩
    | cons ip ips ih =>
        intro seen rest
        have hfold : addAll (seen :: rest) (ip :: ips) =
            addAll (if ip ∈ seen :: rest then seen :: rest else seen :: rest ++ [ip]) ips := rfl
        rw [hfold]
        split
        · exact ih seen rest
        · exact ih seen (rest ++ [ip])
  exact hprefix ips seen []

theorem pick_works {existing : Option String} (h : pick works existing ips = some ip) : works ip = true ∧ ip ≠ "" := by
  rw [pick] at h
  split at h
  · cases h
  · obtain ⟨hfind, hne⟩ := Option.filter_eq_some_iff.mp h
    exact ⟨List.find?_some hfind, of_decide_eq_true hne⟩

/-- A pin that works is picked again. -/
theorem pick_existing (hips : ips ≠ []) (hworks : works ip = true) (hne : ip ≠ "") :
    pick works (some ip) ips = some ip := by
  obtain ⟨rest, hrest⟩ := addAll_head ip ips
  rw [pick, if_neg hips, Option.toList_some, hrest, List.find?_cons_of_pos hworks]
  exact Option.filter_eq_some_iff.mpr ⟨rfl, decide_eq_true hne⟩

theorem pinDomain_other (h : k ≠ domain) (existing : Option String) (s : Pinning) :
    (pinDomain works existing ips domain s).updates.get? k = s.updates.get? k ∧
      (pinDomain works existing ips domain s).cache.pins.get? k = s.cache.pins.get? k := by
  unfold pinDomain
  cases pick works existing ips with
  | some ip =>
      refine ⟨(Dict.get?_set s.updates domain k ip).trans (if_neg h), ?_⟩
      dsimp only
      split
      · exact get?_addPin_other h
      · rfl
  | none =>
      cases existing with
      | none => exact ⟨rfl, rfl⟩
      | some ip =>
          dsimp only
          split
          · exact ⟨rfl, rfl⟩
          · exact ⟨rfl, get?_addPin_other h⟩

theorem pinDomain_self (works : String → Bool) (ips : List String) {existing : Option String} {s : Pinning}
    (hexisting : existing = s.cache.pins.get? domain) (hne : existing ≠ some "") :
    (pinDomain works existing ips domain s).updates.get? domain =
        (pick works existing ips).or (s.updates.get? domain) ∧
      (pinDomain works existing ips domain s).cache.pins.get? domain =
        (pick works existing ips).or (s.cache.pins.get? domain) := by
  unfold pinDomain
  cases hpick : pick works existing ips with
  | some ip =>
      refine ⟨by rw [Dict.get?_set, if_pos rfl, Option.some_or], ?_⟩
      dsimp only
      rw [Option.some_or]
      split
      · rw [get?_addPin, if_pos ⟨rfl, (pick_works hpick).2⟩]
      next hsame => exact not_not.mp hsame
  | none =>
      cases hcase : existing with
      | none => exact ⟨rfl, rfl⟩
      | some ip =>
          rw [hcase] at hexisting hne
          dsimp only
          split
          · exact ⟨rfl, rfl⟩
          · refine ⟨rfl, ?_⟩
            dsimp only
            rw [get?_addPin, if_pos ⟨rfl, fun hip => hne (congrArg some hip)⟩, Option.none_or, hexisting]

end pins

/-! The whole loop. -/

section loop

variable {cfg : Config} {trial : Trial} {pins : Dict String String} {n : Nat} {s : Pinning}
  {domains : List String} {domain ip k : String}

/-- A lookup leaves the pins alone. -/
theorem candidates_pins (cfg : Config) (trial : Trial) (n : Nat) (c : DnsRunCache) (domain : String) :
    (applyAll c (candidates cfg (trial.lookedAt n) (trial.nets n) c domain).1).pins = c.pins :=
  applyAll_pins (continues_candidates cfg (trial.lookedAt n) (trial.nets n) c domain) c

theorem turn_other (h : k ≠ domain) :
    (turn cfg trial pins n s domain).updates.get? k = s.updates.get? k ∧
      (turn cfg trial pins n s domain).cache.pins.get? k = s.cache.pins.get? k := by
  have hsame := candidates_pins cfg trial n s.cache domain
  obtain ⟨hupdates, hcache⟩ := pinDomain_other h ((pins.get? domain).filter (· ≠ "")) { s with
    cache := applyAll s.cache (candidates cfg (trial.lookedAt n) (trial.nets n) s.cache domain).1 }
  exact ⟨hupdates, hcache.trans (congrArg (fun p => Dict.get? p k) hsame)⟩

theorem pinDomains_other (h : k ∉ domains) :
    (pinDomains cfg trial pins n s domains).updates.get? k = s.updates.get? k ∧
      (pinDomains cfg trial pins n s domains).cache.pins.get? k = s.cache.pins.get? k := by
  induction domains generalizing n s with
  | nil => exact ⟨rfl, rfl⟩
  | cons domain domains ih =>
      obtain ⟨hne, hrest⟩ := not_or.mp (mt List.mem_cons.mpr h)
      obtain ⟨hupdates, hcache⟩ := ih (n := n + 1) (s := turn cfg trial pins n s domain) hrest
      obtain ⟨hupdate, hpin⟩ := turn_other hne (n := n) (s := s)
      exact ⟨hupdates.trans hupdate, hcache.trans hpin⟩

/-- The cache has addresses of the domain that do not expire during an auto-pin. -/
def Held (cfg : Config) (trial : Trial) (c : DnsRunCache) (domain : String) (ips : List String) : Prop :=
  ∃ e, c.entries.get? domain = some e ∧ e.ips = ips ∧ ips ≠ [] ∧ ∀ n, ¬ cfg.dnsCacheTtl < trial.lookedAt n - e.ts

theorem held_congr {c c' : DnsRunCache} {ips : List String} (h : c'.entries = c.entries) :
    Held cfg trial c' domain ips ↔ Held cfg trial c domain ips := by
  unfold Held
  rw [h]

theorem Held.get {c : DnsRunCache} {ips : List String} (h : Held cfg trial c domain ips) (n : Nat) :
    DnsSecure.get cfg c domain (trial.lookedAt n) = ([], some ips) := by
  obtain ⟨e, hentry, rfl, _, hfresh⟩ := h
  rw [DnsSecure.get, hentry]
  exact if_neg (hfresh n)

theorem Held.candidates {c : DnsRunCache} {ips : List String} (h : Held cfg trial c domain ips) (n : Nat) (net : Net) :
    candidates cfg (trial.lookedAt n) net c domain = ([], ips) := by
  rw [DnsSecure.candidates, h.get n]
  obtain ⟨e, _, _, hne, _⟩ := h
  exact if_pos hne

theorem pinDomain_entries (works : String → Bool) (existing : Option String) (ips : List String) (domain : String)
    (s : Pinning) : (pinDomain works existing ips domain s).cache.entries = s.cache.entries := by
  have hadd (c : DnsRunCache) (ip : String) : (addPin c domain ip).entries = c.entries := by
    rw [addPin]
    split <;> rfl
  unfold pinDomain
  split
  · dsimp only
    split
    · exact hadd ..
    · rfl
  · split
    · split
      · rfl
      · exact hadd ..
    · rfl

/-- Where the cache has the domain, its turn leaves the entries. -/
theorem turn_entries {ips : List String} (h : Held cfg trial s.cache domain ips) :
    (turn cfg trial pins n s domain).cache.entries = s.cache.entries := by
  rw [turn, h.candidates n]
  exact pinDomain_entries ..

theorem pinDomains_entries (h : ∀ d ∈ domains, ∃ ips, Held cfg trial s.cache d ips) :
    (pinDomains cfg trial pins n s domains).cache.entries = s.cache.entries := by
  induction domains generalizing n s with
  | nil => rfl
  | cons domain domains ih =>
      obtain ⟨⟨ips, hheld⟩, hrest⟩ := List.forall_mem_cons.mp h
      have hentries : (turn cfg trial pins n s domain).cache.entries = s.cache.entries := turn_entries hheld
      refine (ih fun d hd => ?_).trans hentries
      obtain ⟨ips, hd⟩ := hrest d hd
      exact ⟨ips, (held_congr hentries).mpr hd⟩

/-- What the turn of a domain leaves: it has looked the domain up in a cache that still pinned
it as before, and the address it picks, if any, is saved and pinned. -/
structure Turned (cfg : Config) (trial : Trial) (existing : Option String) (domains : List String) (s r : Pinning)
    (domain : String) (n : Nat) (c : DnsRunCache) : Prop where
  before : c.pins.get? domain = s.cache.pins.get? domain
  entries : (∀ d ∈ domains, ∃ ips, Held cfg trial s.cache d ips) → c.entries = s.cache.entries
  updates : r.updates.get? domain = (pick (trial.works domain) existing
    (found cfg (trial.lookedAt n) (trial.nets n) c domain)).or (s.updates.get? domain)
  cache : r.cache.pins.get? domain = (pick (trial.works domain) existing
    (found cfg (trial.lookedAt n) (trial.nets n) c domain)).or (s.cache.pins.get? domain)

theorem turn_self (hpins : (pins.get? k).filter (· ≠ "") = s.cache.pins.get? k) :
    Turned cfg trial ((pins.get? k).filter (· ≠ "")) domains s (turn cfg trial pins n s k) k n s.cache := by
  have hsame := congrArg (fun p => Dict.get? p k) (candidates_pins cfg trial n s.cache k)
  have hne : (pins.get? k).filter (· ≠ "") ≠ some "" := fun h =>
    of_decide_eq_true (Option.filter_eq_some_iff.mp h).2 rfl
  obtain ⟨hupdate, hpin⟩ := pinDomain_self (trial.works k)
    (candidates cfg (trial.lookedAt n) (trial.nets n) s.cache k).2 (s := { s with
      cache := applyAll s.cache (candidates cfg (trial.lookedAt n) (trial.nets n) s.cache k).1 })
    (hpins.trans hsame.symm) hne
  exact ⟨rfl, fun _ => rfl, hupdate, hpin.trans (congrArg _ hsame)⟩

theorem pinDomains_self (hnodup : domains.Nodup) (hk : k ∈ domains)
    (hpins : (pins.get? k).filter (· ≠ "") = s.cache.pins.get? k) :
    ∃ n' c, Turned cfg trial ((pins.get? k).filter (· ≠ "")) domains s (pinDomains cfg trial pins n s domains) k n' c := by
  induction domains generalizing n s with
  | nil => cases hk
  | cons domain domains ih =>
      obtain ⟨hfresh, hrest⟩ := List.nodup_cons.mp hnodup
      rw [pinDomains]
      by_cases heq : k = domain
      · subst heq
        have hturn : Turned cfg trial _ (k :: domains) s (turn cfg trial pins n s k) k n s.cache := turn_self hpins
        obtain ⟨hupdates, hcache⟩ := pinDomains_other (n := n + 1) (s := turn cfg trial pins n s k) hfresh
        exact ⟨n, s.cache, rfl, fun _ => rfl, hupdates.trans hturn.updates, hcache.trans hturn.cache⟩
      · obtain ⟨hupdate, hpin⟩ := turn_other heq (n := n) (s := s)
        obtain ⟨n', c, hturn⟩ := ih (n := n + 1) hrest ((List.mem_cons.mp hk).resolve_left heq) (hpins.trans hpin.symm)
        refine ⟨n', c, hturn.before.trans hpin, fun hheld => ?_, hturn.updates.trans (by rw [hupdate]),
          hturn.cache.trans (by rw [hpin])⟩
        obtain ⟨⟨ips, hfirst⟩, hlater⟩ := List.forall_mem_cons.mp hheld
        have hentries : (turn cfg trial pins n s domain).cache.entries = s.cache.entries := turn_entries hfirst
        refine (hturn.entries fun d hd => ?_).trans hentries
        obtain ⟨ips, hd⟩ := hlater d hd
        exact ⟨ips, (held_congr hentries).mpr hd⟩

/-- The pin that an auto-pin begins with. -/
def existing (filePins : Dict String String) (c : DnsRunCache) (k : String) : Option String :=
  ((mergePins filePins c.pins).get? k).filter (· ≠ "")

/-- An auto-pin saves and pins, of each domain in the cache, the first address that works. -/
structure AutoPinned (cfg : Config) (trial : Trial) (filePins : Dict String String) (c : DnsRunCache) (r : Pinning)
    (k : String) (picked : Option String) : Prop where
  updates : r.updates.get? k = picked
  cache : r.cache.pins.get? k = picked.or (existing filePins c k)
  absent : k ∉ c.entries.keys.filter (· ≠ "") → picked = none
  picks : k ∈ c.entries.keys.filter (· ≠ "") → ∃ n c', c'.pins.get? k = existing filePins c k ∧
    ((∀ d ∈ c.entries.keys.filter (· ≠ ""), ∃ ips, Held cfg trial c d ips) → c'.entries = c.entries) ∧
    picked = pick (trial.works k) (existing filePins c k) (found cfg (trial.lookedAt n) (trial.nets n) c' k)

theorem autoPinIps_spec (filePins : Dict String String) (c : DnsRunCache) (k : String) :
    ∃ picked, AutoPinned cfg trial filePins c (autoPinIps cfg trial filePins c) k picked := by
  have hstart : (nonEmpty (mergePins filePins c.pins)).get? k = existing filePins c k := get?_nonEmpty _ k
  by_cases hk : k ∈ c.entries.keys.filter (· ≠ "")
  · have hnodup : (c.entries.keys.filter (· ≠ "")).Nodup := c.entries.nodup.filter _
    have hturned : ∃ n c', Turned cfg trial (existing filePins c k) _ ⟨setPins c (mergePins filePins c.pins), .empty⟩
        (autoPinIps cfg trial filePins c) k n c' := pinDomains_self hnodup hk hstart.symm
    obtain ⟨n, c', hturn⟩ := hturned
    exact ⟨_, hturn.updates.trans (Option.or_none), hturn.cache.trans (congrArg _ hstart), fun h => absurd hk h,
      fun _ => ⟨n, c', hturn.before.trans hstart, hturn.entries, rfl⟩⟩
  · have hother : (autoPinIps cfg trial filePins c).updates.get? k = none ∧
        (autoPinIps cfg trial filePins c).cache.pins.get? k = (nonEmpty (mergePins filePins c.pins)).get? k :=
      pinDomains_other hk
    exact ⟨none, hother.1, hother.2.trans hstart, fun _ => rfl, fun h => absurd h hk⟩

theorem AutoPinned.works {filePins : Dict String String} {c : DnsRunCache} {r : Pinning} {picked : Option String}
    (h : AutoPinned cfg trial filePins c r k picked) (hpicked : picked = some ip) :
    trial.works k ip = true ∧ ip ≠ "" := by
  by_cases hk : k ∈ c.entries.keys.filter (· ≠ "")
  · obtain ⟨n, c', _, _, hpick⟩ := h.picks hk
    exact pick_works (hpick ▸ hpicked)
  · cases (h.absent hk).symm.trans hpicked

end loop

/-! What is written is what is read. -/

section file

variable {pins updates : Dict String String} {k ip : String}

theorem sameDict_get? (h : sameDict pins updates = true) (k : String) : pins.get? k = updates.get? k := by
  rw [sameDict, Bool.and_eq_true, decide_eq_true_eq, List.all_eq_true] at h
  obtain ⟨hsize, hall⟩ := h
  have hsub : ∀ k ip, pins.get? k = some ip → updates.get? k = some ip := fun k ip hk =>
    of_decide_eq_true (hall (k, ip) ((Dict.get?_eq_some_iff _ _ _).mp hk))
  have hkeys : pins.keys ⊆ updates.keys := by
    intro k hk
    obtain ⟨ip, hip⟩ := (Dict.mem_keys_iff pins k).mp hk
    exact (Dict.mem_keys_iff updates k).mpr ⟨ip, hsub k ip hip⟩
  have hperm : pins.keys.Perm updates.keys := by
    refine (List.subperm_of_subset pins.nodup hkeys).perm_of_length_le ?_
    change (updates.entries.map Prod.fst).length ≤ (pins.entries.map Prod.fst).length
    rw [List.length_map, List.length_map]
    exact Nat.le_of_eq hsize.symm
  cases hk : pins.get? k with
  | some ip => exact (hsub k ip hk).symm
  | none =>
      rw [Dict.get?_eq_none_iff, hperm.mem_iff, ← Dict.get?_eq_none_iff] at hk
      exact hk.symm

/-- The pins that may be merged into a file. -/
def Mergeable (updates : Dict String String) : Prop := ∀ k ip, updates.get? k = some ip → ip ≠ "" → Pin k ip

theorem pinned_merge (hfile : Pinned pins) (h : Mergeable updates) : Pinned (mergePins pins updates) := by
  intro k ip hk
  rw [get?_mergePins, Option.or_eq_some_iff, Option.filter_eq_some_iff] at hk
  rcases hk with ⟨hk, hne⟩ | ⟨_, hk⟩
  · exact h k ip hk (of_decide_eq_true hne)
  · exact hfile k ip hk

theorem read_written (file : Option (List Char)) {records : Dict String Value} (h : Mergeable (newRecords records))
    (k : String) : (readPins (some (writeHosts file records))).get? k =
      (mergePins (readPins file) (newRecords records)).get? k :=
  readPins_hostsText (pinned_merge (pinned_readPins file) h) k

theorem pinned_loadPins (s : State) (path : String) : Pinned (loadPins s path) := by
  rw [loadPins]
  split
  · exact pinned_empty
  · exact pinned_readPins _

/-- The pins of a merge are the new ones, and the old ones of the other domains. -/
theorem get?_merge (h : (mergePins pins updates).get? k = some ip) :
    (updates.get? k = some ip ∧ ip ≠ "") ∨ pins.get? k = some ip := by
  rw [get?_mergePins, Option.or_eq_some_iff, Option.filter_eq_some_iff] at h
  rcases h with ⟨hk, hne⟩ | ⟨_, hk⟩
  · exact .inl ⟨hk, of_decide_eq_true hne⟩
  · exact .inr hk

theorem merge_keeps (h : pins.get? k ≠ none) (updates : Dict String String) : (mergePins pins updates).get? k ≠ none := by
  rw [get?_mergePins]
  intro hnone
  exact h (Option.or_eq_none_iff.mp hnone).2

/-- Of the files at most one is written, and it then holds its pins and the new ones. -/
def Merged (s t : State) (updates : Dict String String) : Prop :=
  ∀ path k, (readPins (t.files path)).get? k = (readPins (s.files path)).get? k ∨
    (readPins (t.files path)).get? k = (mergePins (readPins (s.files path)) updates).get? k

theorem Merged.same {s t : State} (h : t.files = s.files) (updates : Dict String String) : Merged s t updates :=
  fun path k => .inl (by rw [h])

theorem merged_write {s : State} {path : String} {text : List Char}
    (h : ∀ k, (readPins (some text)).get? k = (mergePins (readPins (s.files path)) updates).get? k) :
    Merged s (s.write path text) updates := by
  intro other k
  by_cases heq : other = path
  · subst heq
    right
    rw [← h k]
    exact congrArg (fun file => (readPins file).get? k) (Function.update_self ..)
  · left
    exact congrArg (fun file => (readPins file).get? k) (Function.update_of_ne heq ..)

theorem merged_writeHostsFile (s : State) (hostsFile : String) {records : Dict String Value}
    (h : Mergeable (newRecords records)) (written : Bool) :
    Merged s (writeHostsFile hostsFile s records written) (newRecords records) := by
  rw [writeHostsFile]
  split
  · exact merged_write (read_written _ h)
  · exact .same rfl _

theorem merged_savePins (s : State) (h : Mergeable updates) (written : Bool) :
    Merged s (savePins s updates written) updates := by
  rw [savePins]
  cases hsaved : saved (loadPins s s.pinnedPath) updates with
  | none => exact .same rfl _
  | some text =>
      dsimp only
      split
      next hpath =>
        apply merged_write
        intro k
        rw [saved] at hsaved
        split at hsaved
        · cases hsaved
        · obtain rfl := Option.some.inj hsaved
          rw [readPins_hostsText (pinned_merge (pinned_loadPins s s.pinnedPath) h), loadPins, if_neg hpath.1]
      next => exact .same rfl _

/-- After a save the file has the pins, whether it was written or had them. -/
theorem read_savePins {s : State} (hpath : s.pinnedPath ≠ "") (h : Mergeable updates) (k : String) :
    (readPins ((savePins s updates true).files s.pinnedPath)).get? k =
      (mergePins (readPins (s.files s.pinnedPath)) updates).get? k := by
  have hload : loadPins s s.pinnedPath = readPins (s.files s.pinnedPath) := if_neg hpath
  rw [savePins, hload]
  cases hsaved : saved (readPins (s.files s.pinnedPath)) updates with
  | none =>
      rw [saved] at hsaved
      split at hsaved
      next hsame => exact (sameDict_get? hsame k).symm
      next => cases hsaved
  | some text =>
      rw [saved] at hsaved
      split at hsaved
      next => cases hsaved
      next =>
        obtain rfl := Option.some.inj hsaved
        dsimp only
        rw [if_pos ⟨hpath, rfl⟩]
        refine (congrArg (fun file => (readPins file).get? k) (Function.update_self s.pinnedPath _ s.files)).trans ?_
        exact readPins_hostsText (pinned_merge (pinned_readPins _) h) k

theorem get?_l3Records (pins : Dict String String) (k : String) :
    (newRecords (l3Records pins)).get? k = (pins.get? k).filter (· ≠ "") := by
  rw [get?_newRecords, ← get?_nonEmpty]
  apply Option.ext
  intro ip
  rw [Option.bind_eq_some_iff, Dict.get?_eq_some_iff]
  constructor
  · rintro ⟨value, hvalue, hip⟩
    obtain ⟨e, he, heq⟩ := List.mem_map.mp ((Dict.get?_eq_some_iff _ _ _).mp hvalue)
    obtain ⟨rfl, rfl⟩ := Prod.mk.inj heq
    obtain rfl := Option.some.inj hip
    exact he
  · intro he
    exact ⟨.addresses [ip], (Dict.get?_eq_some_iff _ _ _).mpr (List.mem_map.mpr ⟨(k, ip), he, rfl⟩), rfl⟩

end file

/-! Every run. -/

/-- The addresses that an action brings: the first of a verified answer, one that was reached,
and one that the strategy passed with. -/
def Told : Action → String → String → Prop
  | .syncDns records _, k, ip => (records.get? k).bind (fun value => value.ips.head?) = some ip ∧ ip ≠ ""
  | .l3Pick domain picked, k, ip => k = domain ∧ ip = picked ∧ ip ≠ ""
  | .autoPin trial _, k, ip => trial.works k ip = true ∧ ip ≠ ""
  | _, _, _ => False

section runs

variable {cfg : Config} {hostsFile : String} {s t : State} {a : Action} {actions : List Action}
  {allowed : String → String → Prop} {path k ip : String}

structure Holds (allowed : String → String → Prop) (s : State) : Prop where
  files : ∀ path k ip, (readPins (s.files path)).get? k = some ip → allowed k ip
  cache : ∀ c, s.cache = some c → ∀ k ip, c.pins.get? k = some ip → allowed k ip

theorem loadPins_allowed (hs : Holds allowed s) (hk : (loadPins s path).get? k = some ip) : allowed k ip := by
  rw [loadPins] at hk
  split at hk
  · cases hk
  · exact hs.files path k ip hk

/-- A domain with a pin keeps one. -/
def Keeps (s t : State) : Prop :=
  ∀ path k, (readPins (s.files path)).get? k ≠ none → (readPins (t.files path)).get? k ≠ none

theorem Merged.holds {updates : Dict String String} (h : Merged s t updates) (hs : Holds allowed s)
    (hupdates : ∀ k ip, updates.get? k = some ip → ip ≠ "" → allowed k ip) (path k ip : String)
    (hk : (readPins (t.files path)).get? k = some ip) : allowed k ip := by
  rcases h path k with hsame | hmerged
  · exact hs.files path k ip (hsame.symm.trans hk)
  · rcases get?_merge (hmerged.symm.trans hk) with ⟨hnew, hne⟩ | hold
    · exact hupdates k ip hnew hne
    · exact hs.files path k ip hold

theorem Merged.keeps {updates : Dict String String} (h : Merged s t updates) : Keeps s t := by
  intro path k hk
  rcases h path k with hsame | hmerged
  · rwa [hsame]
  · rw [hmerged]
    exact merge_keeps hk updates

theorem writeHostsFile_cache (s : State) (records : Dict String Value) (written : Bool) :
    (writeHostsFile hostsFile s records written).cache = s.cache := by
  rw [writeHostsFile]
  split <;> rfl

theorem savePins_cache (s : State) (updates : Dict String String) (written : Bool) :
    (savePins s updates written).cache = s.cache := by
  rw [savePins]
  split
  · split <;> rfl
  · rfl

theorem prepareDnsForRun_pins (net : PrepareNet) (nets : Nat → Net) (domains : List String) (args : PrepareArgs) :
    (applyAll {} (prepareDnsForRun cfg net nets domains args)).pins = .empty := by
  have hresolveAll (c : DnsRunCache) (url : String) (n : Nat) (domains : List String) :
      Continues (resolveAll cfg nets url n c domains) := by
    induction domains generalizing n c with
    | nil => exact fun w hw => absurd hw List.not_mem_nil
    | cons domain domains ih =>
        rw [resolveAll]
        exact continues_append (continues_resolve cfg (nets n) c domain url) (ih _ _)
  have hprime (probe : String → Answer) (c : DnsRunCache) (url : String) :
      Continues (prime cfg probe nets c domains url) := by
    rw [prime]
    refine continues_append (fun w hw server heq => ?_) (hresolveAll _ _ 0 domains)
    obtain ⟨u, _, rfl⟩ := Option.map_eq_some_iff.mp (Option.mem_toList.mp hw)
    cases heq
  have hbegun (url : String) (writes : List Write) (h : Continues writes) :
      (applyAll {} ([Write.fresh url] ++ writes)).pins = .empty :=
    applyAll_pins h _
  rw [prepareDnsForRun]
  split
  · rfl
  · dsimp only
    split
    · rfl
    · exact hbegun _ _ (hprime _ _ _)

theorem step_holds (hpin : ∀ k ip, allowed k ip → Pin k ip) (hs : Holds allowed s)
    (htold : ∀ k ip, Told a k ip → allowed k ip) (h : step cfg hostsFile s a = some t) :
    Holds allowed t ∧ Keeps s t := by
  cases a with
  | launch path net nets domains args =>
      obtain rfl := Option.some.inj h
      refine ⟨⟨hs.files, fun c hc k ip hk => ?_⟩, fun _ _ hk => hk⟩
      dsimp only at hc
      split at hc
      next =>
        obtain rfl := Option.some.inj hc
        rw [prepared] at hk
        split at hk
        next =>
          rw [prepareDnsForRun_pins] at hk
          cases hk
        next hpath =>
          change (nonEmpty (loadPins s path)).get? k = some ip at hk
          rw [get?_nonEmpty, Option.filter_eq_some_iff, loadPins, if_neg hpath] at hk
          exact hs.files path k ip hk.1
      next => cases hc
  | resolve net domain dohUrl =>
      obtain ⟨c, hc, rfl⟩ := Option.map_eq_some_iff.mp h
      refine ⟨⟨hs.files, fun c' hc' k ip hk => ?_⟩, fun _ _ hk => hk⟩
      obtain rfl := Option.some.inj hc'
      rw [applyAll_pins (continues_resolve cfg net c domain dohUrl)] at hk
      exact hs.cache c hc k ip hk
  | syncDns records written =>
      obtain rfl := Option.some.inj h
      have hnew : ∀ k ip, (newRecords records).get? k = some ip → ip ≠ "" → allowed k ip := fun k ip hk hne =>
        htold k ip ⟨(get?_newRecords records k).symm.trans hk, hne⟩
      have hmerged := merged_writeHostsFile s hostsFile (fun k ip hk hne => hpin k ip (hnew k ip hk hne)) written
      refine ⟨⟨hmerged.holds hs hnew, fun c hc => ?_⟩, hmerged.keeps⟩
      rw [writeHostsFile_cache] at hc
      exact hs.cache c hc
  | l3Pick domain picked =>
      obtain ⟨c, hc, rfl⟩ := Option.map_eq_some_iff.mp h
      refine ⟨⟨hs.files, fun c' hc' k ip hk => ?_⟩, fun _ _ hk => hk⟩
      obtain rfl := Option.some.inj hc'
      rw [get?_addPin] at hk
      split at hk
      next hnew =>
        obtain rfl := Option.some.inj hk
        exact htold k _ ⟨hnew.1, rfl, hnew.2⟩
      next => exact hs.cache c hc k ip hk
  | flushL3Pins written =>
      obtain ⟨c, hc, rfl⟩ := Option.map_eq_some_iff.mp h
      split
      · exact ⟨hs, fun _ _ hk => hk⟩
      · have hnew : ∀ k ip, (newRecords (l3Records c.pins)).get? k = some ip → ip ≠ "" → allowed k ip := by
          intro k ip hk _
          rw [get?_l3Records, Option.filter_eq_some_iff] at hk
          exact hs.cache c hc k ip hk.1
        have hmerged := merged_writeHostsFile s hostsFile (fun k ip hk hne => hpin k ip (hnew k ip hk hne)) written
        refine ⟨⟨hmerged.holds hs hnew, fun c' hc' => ?_⟩, hmerged.keeps⟩
        rw [writeHostsFile_cache] at hc'
        exact hs.cache c' hc'
  | autoPin trial written =>
      obtain ⟨c, hc, rfl⟩ := Option.map_eq_some_iff.mp h
      have hspec (k : String) : ∃ picked, AutoPinned cfg trial (loadPins s s.pinnedPath) c
          (autoPinIps cfg trial (loadPins s s.pinnedPath) c) k picked := autoPinIps_spec _ c k
      have hnew : ∀ k ip, (autoPinIps cfg trial (loadPins s s.pinnedPath) c).updates.get? k = some ip → ip ≠ "" →
          allowed k ip := by
        intro k ip hk _
        obtain ⟨picked, hpicked⟩ := hspec k
        exact htold k ip (hpicked.works (hpicked.updates.symm.trans hk))
      have hpins : ∀ k ip, (autoPinIps cfg trial (loadPins s s.pinnedPath) c).cache.pins.get? k = some ip →
          allowed k ip := by
        intro k ip hk
        obtain ⟨picked, hpicked⟩ := hspec k
        rw [hpicked.cache, Option.or_eq_some_iff] at hk
        rcases hk with hk | ⟨_, hk⟩
        · exact htold k ip (hpicked.works hk)
        · rcases get?_merge (Option.filter_eq_some_iff.mp hk).1 with ⟨hold, _⟩ | hold
          · exact hs.cache c hc k ip hold
          · exact loadPins_allowed hs hold
      have hmerged := merged_savePins { s with cache := some (autoPinIps cfg trial (loadPins s s.pinnedPath) c).cache }
        (fun k ip hk hne => hpin k ip (hnew k ip hk hne)) written
      have hcache : ∀ c', some (autoPinIps cfg trial (loadPins s s.pinnedPath) c).cache = some c' →
          ∀ k ip, c'.pins.get? k = some ip → allowed k ip := fun c' hc' => Option.some.inj hc' ▸ hpins
      refine ⟨⟨hmerged.holds ⟨hs.files, hcache⟩ hnew, fun c' hc' => hcache c' ?_⟩, hmerged.keeps⟩
      rwa [savePins_cache] at hc'

def firstNet : Net := ⟨0, 0, fun _ => ([], ""), fun _ => (["2.2.2.2"], ""), []⟩

def firstTrial : Trial :=
  ⟨fun _ => 0, fun _ => firstNet, fun _ _ => true, fun domain ip => decide (domain = "a.com" ∧ ip = "1.1.1.1")⟩

def firstRecords : Dict String Value := ⟨[("a.com", .addresses ["2.2.2.2"])], by decide⟩

def firstArgs : PrepareArgs := { skipAudit := true, dohServer := "https://dns.google/dns-query" }

def firstActions : List Action :=
  [.launch "hosts" ⟨false, fun _ => ([], ""), fun _ => ([], "")⟩ (fun _ => firstNet) ["a.com"] firstArgs,
    .syncDns firstRecords true, .autoPin firstTrial true]

def firstState : State := { files := fun path => if path = "hosts" then some "1.1.1.1 a.com\n".toList else none }

theorem firstTrial_clean (k ip : String) (h : firstTrial.works k ip = true) : Pin k ip := by
  obtain ⟨rfl, rfl⟩ : k = "a.com" ∧ ip = "1.1.1.1" := of_decide_eq_true h
  exact ⟨by decide, forall_mem_of_all (by decide), by decide, forall_mem_of_all (by decide)⟩

theorem firstActions_clean (a : Action) (ha : a ∈ firstActions) (k ip : String) (h : Told a k ip) : Pin k ip := by
  rw [firstActions, List.mem_cons, List.mem_cons, List.mem_singleton] at ha
  rcases ha with rfl | rfl | rfl
  · exact h.elim
  · obtain ⟨value, hvalue, hip⟩ := Option.bind_eq_some_iff.mp h.1
    obtain ⟨rfl, rfl⟩ := Prod.mk.inj (List.mem_singleton.mp ((Dict.get?_eq_some_iff firstRecords k value).mp hvalue))
    obtain rfl := Option.some.inj hip
    exact ⟨by decide, forall_mem_of_all (by decide), by decide, forall_mem_of_all (by decide)⟩
  · exact firstTrial_clean k ip h.1

structure Launch where
  net : PrepareNet
  nets : Nat → Net
  domains : List String
  args : PrepareArgs
  between : List Action
  trial : Trial

def Launch.schedule (path : String) (l : Launch) : List Action :=
  .launch path l.net l.nets l.domains l.args :: (l.between ++ [.autoPin l.trial true])

/-- What is between the start of a launch and its auto-pin, where no other address of the domain
is picked. -/
def Between (k ip : String) : Action → Prop
  | .launch .. => False
  | .autoPin .. => False
  | .l3Pick domain picked => domain = k → picked = ip
  | _ => True

structure Launch.Works (l : Launch) (k ip : String) : Prop where
  secure : l.args.secureDns = true
  between : ∀ a ∈ l.between, Between k ip a
  works : l.trial.works k ip = true
  clean : ∀ k ip, l.trial.works k ip = true → ip ≠ "" → Pin k ip

/-- The domain is in the cache when it is auto-pinned. -/
def Looked (k : String) (s : State) (a : Action) : Prop :=
  ∀ trial written, a = .autoPin trial written → ∃ c, s.cache = some c ∧ k ∈ c.entries.keys

/-- A launch on its way, with the pin in its cache. -/
structure Loaded (path k ip : String) (s : State) : Prop where
  path : s.pinnedPath = path
  pinned : ∃ c, s.cache = some c ∧ c.pins.get? k = some ip

theorem loaded_launch {net : PrepareNet} {nets : Nat → Net} {domains : List String} {args : PrepareArgs}
    (hpath : path ≠ "") (hsecure : args.secureDns = true) (hne : ip ≠ "")
    (hpin : (readPins (s.files path)).get? k = some ip)
    (h : step cfg hostsFile s (.launch path net nets domains args) = some t) : Loaded path k ip t := by
  obtain rfl := Option.some.inj h
  refine ⟨rfl, prepared cfg s path net nets domains args, if_pos hsecure, ?_⟩
  rw [prepared, if_neg hpath]
  change (nonEmpty (loadPins s path)).get? k = some ip
  rw [get?_nonEmpty, loadPins, if_neg hpath, hpin]
  exact Option.filter_eq_some_iff.mpr ⟨rfl, decide_eq_true hne⟩

theorem writeHostsFile_path (s : State) (records : Dict String Value) (written : Bool) :
    (writeHostsFile hostsFile s records written).pinnedPath = s.pinnedPath := by
  rw [writeHostsFile]
  split <;> rfl

theorem loaded_between (hs : Loaded path k ip s) (ha : Between k ip a) (h : step cfg hostsFile s a = some t) :
    Loaded path k ip t := by
  obtain ⟨hpath, c, hc, hpin⟩ := hs
  cases a with
  | launch => exact ha.elim
  | autoPin => exact ha.elim
  | resolve net domain dohUrl =>
      obtain ⟨c', hc', rfl⟩ := Option.map_eq_some_iff.mp h
      obtain rfl := Option.some.inj (hc.symm.trans hc')
      refine ⟨hpath, _, rfl, ?_⟩
      rw [applyAll_pins (continues_resolve cfg net c domain dohUrl), hpin]
  | syncDns records written =>
      obtain rfl := Option.some.inj h
      exact ⟨(writeHostsFile_path ..).trans hpath, c, (writeHostsFile_cache ..).trans hc, hpin⟩
  | l3Pick domain picked =>
      obtain ⟨c', hc', rfl⟩ := Option.map_eq_some_iff.mp h
      obtain rfl := Option.some.inj (hc.symm.trans hc')
      refine ⟨hpath, _, rfl, ?_⟩
      rw [get?_addPin]
      split
      next hsame => rw [ha hsame.1.symm]
      next => exact hpin
  | flushL3Pins written =>
      obtain ⟨c', hc', rfl⟩ := Option.map_eq_some_iff.mp h
      split
      · exact ⟨hpath, c, hc, hpin⟩
      · exact ⟨(writeHostsFile_path ..).trans hpath, c, (writeHostsFile_cache ..).trans hc, hpin⟩

theorem found_pinned {lookedAt : ℚ} {net : Net} {c : DnsRunCache} (hpin : c.pins.get? k = some ip) (hne : ip ≠ "") :
    found cfg lookedAt net c k ≠ [] := by
  rw [found_eq]
  split
  next hfresh => exact hfresh
  next =>
    have heffective : effectivePin c k = some ip := by
      rw [effectivePin, hpin]
      exact Option.filter_eq_some_iff.mpr ⟨rfl, decide_eq_true hne⟩
    exact List.ne_nil_of_mem (mem_pinnedFirst heffective)

theorem pin_ne {domain : String} (h : Pin domain ip) : domain ≠ "" ∧ ip ≠ "" := by
  constructor
  · rintro rfl
    exact h.domain_ne rfl
  · rintro rfl
    obtain ⟨c, rest, hcons, _⟩ := isIp_head h.isIp
    cases hcons

theorem autoPin_step {c : DnsRunCache} (hc : s.cache = some c) (trial : Trial) (written : Bool) :
    step cfg hostsFile s (.autoPin trial written) = some (savePins
      { s with cache := some (autoPinIps cfg trial (loadPins s s.pinnedPath) c).cache }
      (autoPinIps cfg trial (loadPins s s.pinnedPath) c).updates written) :=
  congrArg (Option.map _) hc

theorem mergeable_autoPinIps {trial : Trial} (hclean : ∀ k ip, trial.works k ip = true → ip ≠ "" → Pin k ip)
    (filePins : Dict String String) (c : DnsRunCache) : Mergeable (autoPinIps cfg trial filePins c).updates := by
  intro k ip hk _
  obtain ⟨picked, hpicked⟩ := autoPinIps_spec filePins c k
  obtain ⟨hpass, hne⟩ := hpicked.works (hpicked.updates.symm.trans hk)
  exact hclean k ip hpass hne

/-- The auto-pin saves the pin it was loaded with. -/
theorem autoPin_restores {trial : Trial} (hs : Loaded path k ip s) (hpath : path ≠ "") (hpin : Pin k ip)
    (hworks : trial.works k ip = true) (hclean : ∀ k ip, trial.works k ip = true → ip ≠ "" → Pin k ip)
    (hlooked : Looked k s (.autoPin trial true)) (h : step cfg hostsFile s (.autoPin trial true) = some t) :
    (readPins (t.files path)).get? k = some ip := by
  obtain ⟨rfl, c, hc, hcached⟩ := hs
  obtain ⟨hk, hne⟩ := pin_ne hpin
  obtain ⟨c', hc', hkeys⟩ := hlooked trial true rfl
  obtain rfl := Option.some.inj (hc.symm.trans hc')
  obtain rfl := Option.some.inj ((autoPin_step hc trial true).symm.trans h)
  have hexisting : existing (loadPins s s.pinnedPath) c k = some ip := by
    rw [existing, get?_mergePins, hcached]
    exact Option.filter_eq_some_iff.mpr ⟨by simp [Option.filter, hne], decide_eq_true hne⟩
  have hspec : ∃ picked, AutoPinned cfg trial (loadPins s s.pinnedPath) c
      (autoPinIps cfg trial (loadPins s s.pinnedPath) c) k picked := autoPinIps_spec _ c k
  obtain ⟨picked, hpicked⟩ := hspec
  obtain ⟨n, c', hbefore, _, hpick⟩ := hpicked.picks (List.mem_filter.mpr ⟨hkeys, decide_eq_true hk⟩)
  rw [hexisting] at hbefore hpick
  rw [pick_existing (found_pinned hbefore hne) hworks hne] at hpick
  have hmergeable : Mergeable (autoPinIps cfg trial (loadPins s s.pinnedPath) c).updates :=
    mergeable_autoPinIps hclean _ c
  have hread := read_savePins (s := { s with cache := some (autoPinIps cfg trial (loadPins s s.pinnedPath) c).cache })
    hpath hmergeable k
  refine hread.trans ?_
  rw [get?_mergePins, hpicked.updates, hpick]
  simp [Option.filter, hne]

theorem launch_keeps {l : Launch} (hl : l.Works k ip) (hpath : path ≠ "")
    (hpin : (readPins (s.files path)).get? k = some ip)
    (hlooked : Along (step cfg hostsFile) (Looked k) s (l.schedule path))
    (h : run (step cfg hostsFile) s (l.schedule path) = some t) : (readPins (t.files path)).get? k = some ip := by
  have hvalid : Pin k ip := pinned_readPins _ k ip hpin
  obtain ⟨u, hu, hrest⟩ := run_cons_eq_some.mp h
  obtain ⟨v, hv, hlast⟩ := run_append_eq_some.mp hrest
  obtain ⟨w, hw, hend⟩ := run_cons_eq_some.mp hlast
  obtain rfl := Option.some.inj hend
  have hloaded : Loaded path k ip u := loaded_launch hpath hl.secure (pin_ne hvalid).2 hpin hu
  have hstep : ∀ u a v, Loaded path k ip u → Between k ip a → step cfg hostsFile u a = some v → Loaded path k ip v :=
    fun _ _ _ hs ha h => loaded_between hs ha h
  have hready : Loaded path k ip v := along_invariant hstep hloaded (along_of_forall hl.between) hv
  exact autoPin_restores hready hpath hvalid hl.works hl.clean ((along_append (hlooked.2 u hu)).2 v hv).1 hw

def firstLaunch : Launch where
  net := ⟨false, fun _ => ([], ""), fun _ => ([], "")⟩
  nets := fun _ => firstNet
  domains := ["a.com"]
  args := firstArgs
  between := [.syncDns firstRecords true]
  trial := firstTrial

theorem found_held {trial : Trial} {c : DnsRunCache} {ips : List String} (h : Held cfg trial c k ips) (n : Nat)
    (net : Net) : found cfg (trial.lookedAt n) net c k = ips := by
  rw [found, h.candidates n]

theorem AutoPinned.held {trial : Trial} {filePins : Dict String String} {c : DnsRunCache} {r : Pinning}
    {picked : Option String} (h : AutoPinned cfg trial filePins c r k picked) (hk : k ≠ "")
    (hheld : ∀ d ∈ c.entries.keys.filter (· ≠ ""), ∃ ips, Held cfg trial c d ips) {ips : List String}
    (hips : Held cfg trial c k ips) : picked = pick (trial.works k) (existing filePins c k) ips := by
  obtain ⟨e, hentry, -⟩ := id hips
  have hmem : k ∈ c.entries.keys.filter (· ≠ "") :=
    List.mem_filter.mpr ⟨(Dict.mem_keys_iff _ _).mpr ⟨e, hentry⟩, decide_eq_true hk⟩
  obtain ⟨n, c', _, hentries, hpick⟩ := h.picks hmem
  rw [hpick, found_held ((held_congr (hentries hheld)).mpr hips)]

theorem sameDict_of_get? {pins updates : Dict String String} (h : ∀ k, pins.get? k = updates.get? k) :
    sameDict pins updates = true := by
  have hkeys : pins.keys.Perm updates.keys := by
    apply (List.perm_ext_iff_of_nodup pins.nodup updates.nodup).mpr
    intro k
    change k ∈ pins.keys ↔ k ∈ updates.keys
    rw [Dict.mem_keys_iff, Dict.mem_keys_iff, h k]
  have hsize : pins.size = updates.size := by
    have hlength := hkeys.length_eq
    rwa [Dict.keys, Dict.keys, List.length_map, List.length_map] at hlength
  rw [sameDict, Bool.and_eq_true, List.all_eq_true]
  refine ⟨decide_eq_true hsize, fun e he => decide_eq_true ?_⟩
  rw [← h, Dict.get?_eq_some_iff]
  exact he

theorem filter_self {a : Option String} (h : a ≠ some "") : a.filter (· ≠ "") = a := by
  cases a with
  | none => rfl
  | some ip => exact Option.filter_eq_some_iff.mpr ⟨rfl, decide_eq_true fun hip => h (congrArg some hip)⟩

theorem or_filter (a : Option String) {b : Option String} (hb : b ≠ some "") :
    ((a.filter (· ≠ "")).or b).filter (· ≠ "") = (a.filter (· ≠ "")).or b := by
  apply filter_self
  intro h
  rcases Option.or_eq_some_iff.mp h with ha | ⟨_, hb'⟩
  · exact of_decide_eq_true (Option.filter_eq_some_iff.mp ha).2 rfl
  · exact hb hb'

/-- The second of two auto-pins that meet the same picks the same. -/
theorem AutoPinned.again {trial again : Trial} {filePins later : Dict String String} {c : DnsRunCache}
    {r r' : Pinning} {picked picked' : Option String} (h : AutoPinned cfg trial filePins c r k picked)
    (h' : AutoPinned cfg again later r.cache r' k picked') (hfile : Pinned filePins) (hlater : Pinned later)
    (hmerged : later.get? k = picked.or (filePins.get? k)) (hsame : again.works = trial.works)
    (hentries : r.cache.entries = c.entries)
    (hheld : ∀ d ∈ c.entries.keys.filter (· ≠ ""), ∃ ips, Held cfg trial c d ips ∧ Held cfg again c d ips) :
    picked' = picked ∧ existing later r.cache k = picked.or (existing filePins c k) := by
  have hvalid {pins : Dict String String} (hpins : Pinned pins) : pins.get? k ≠ some "" := fun hk =>
    (pin_ne (hpins k "" hk)).2 rfl
  have hne : existing filePins c k ≠ some "" := fun hk =>
    of_decide_eq_true (Option.filter_eq_some_iff.mp hk).2 rfl
  have hcached : r.cache.pins.get? k ≠ some "" := by
    rw [h.cache]
    intro hk
    rcases Option.or_eq_some_iff.mp hk with hk | ⟨_, hk⟩
    · exact (h.works hk).2 rfl
    · exact hne hk
  have hbegin : existing later r.cache k = (r.cache.pins.get? k).or (later.get? k) := by
    rw [existing, get?_mergePins, or_filter _ (hvalid hlater), filter_self hcached]
  have hexisting : existing later r.cache k = picked.or (existing filePins c k) := by
    rw [hbegin, h.cache, hmerged]
    cases picked with
    | some ip => rfl
    | none =>
        rw [Option.none_or, Option.none_or]
        cases hold : existing filePins c k with
        | some ip => rfl
        | none =>
            rw [existing, get?_mergePins, or_filter _ (hvalid hfile)] at hold
            exact (Option.or_eq_none_iff.mp hold).2
  refine ⟨?_, hexisting⟩
  by_cases hk : k ∈ c.entries.keys.filter (· ≠ "")
  · obtain ⟨ips, hips, hips'⟩ := hheld k hk
    have hnonempty : k ≠ "" := of_decide_eq_true (List.mem_filter.mp hk).2
    have hpick := h.held hnonempty (fun d hd => (hheld d hd).imp fun ips hd => hd.1) hips
    have hpick' := h'.held hnonempty (by
      rw [hentries]
      exact fun d hd => (hheld d hd).imp fun ips hd => (held_congr hentries).mpr hd.2) ((held_congr hentries).mpr hips')
    rw [hpick', hexisting, hsame]
    cases hcase : picked with
    | none => rw [Option.none_or, ← hpick, hcase]
    | some ip =>
        obtain ⟨_, _, _, hips, _⟩ := hips
        exact pick_existing hips (h.works hcase).1 (h.works hcase).2
  · rw [h.absent hk, h'.absent (by rwa [hentries])]

theorem savePins_path (s : State) (updates : Dict String String) (written : Bool) :
    (savePins s updates written).pinnedPath = s.pinnedPath := by
  rw [savePins]
  split
  · split <;> rfl
  · rfl

/-- What the step of an auto-pin does with its result. -/
theorem autoPin_saves {c : DnsRunCache} {trial : Trial} {r : Pinning} (hc : s.cache = some c) (hpath : s.pinnedPath ≠ "")
    (hclean : ∀ k ip, trial.works k ip = true → ip ≠ "" → Pin k ip)
    (h : step cfg hostsFile s (.autoPin trial true) = some t) (hr : autoPinIps cfg trial (loadPins s s.pinnedPath) c = r) :
    (∀ k, (readPins (t.files s.pinnedPath)).get? k = (mergePins (readPins (s.files s.pinnedPath)) r.updates).get? k) ∧
      t.cache = some r.cache ∧ t.pinnedPath = s.pinnedPath := by
  have hmergeable : Mergeable r.updates := hr ▸ mergeable_autoPinIps hclean _ c
  have hstep := (autoPin_step hc trial true).symm.trans h
  rw [hr] at hstep
  obtain rfl := Option.some.inj hstep
  exact ⟨read_savePins (s := { s with cache := some r.cache }) hpath hmergeable, savePins_cache .., savePins_path ..⟩

theorem AutoPinned.merged {trial : Trial} {filePins current later : Dict String String} {c : DnsRunCache} {r : Pinning}
    {picked : Option String} (h : AutoPinned cfg trial filePins c r k picked)
    (hlater : later.get? k = (mergePins current r.updates).get? k) : later.get? k = picked.or (current.get? k) := by
  have hne : picked ≠ some "" := fun hp => (h.works hp).2 rfl
  rw [hlater, get?_mergePins, h.updates, filter_self hne]

/-- An auto-pin over a cache that holds its domains gives each the first address that works, of its
pin and what the cache has, and leaves the file where none does; and a second one under which the
same addresses work does not write. -/
theorem autoPin_settles {c : DnsRunCache} {trial again : Trial} (hc : s.cache = some c) (hpath : s.pinnedPath ≠ "")
    (hheld : ∀ d ∈ c.entries.keys.filter (· ≠ ""), ∃ ips, Held cfg trial c d ips ∧ Held cfg again c d ips)
    (hsame : again.works = trial.works) (hclean : ∀ k ip, trial.works k ip = true → ip ≠ "" → Pin k ip)
    (h : step cfg hostsFile s (.autoPin trial true) = some t) :
    (∀ k ips, k ≠ "" → Held cfg trial c k ips → (readPins (t.files s.pinnedPath)).get? k =
      (pick (trial.works k) (existing (readPins (s.files s.pinnedPath)) c k) ips).or
        ((readPins (s.files s.pinnedPath)).get? k)) ∧
    (∀ k ∉ c.entries.keys, (readPins (t.files s.pinnedPath)).get? k = (readPins (s.files s.pinnedPath)).get? k) ∧
    ∃ u, step cfg hostsFile t (.autoPin again true) = some u ∧ u.files = t.files ∧
      ∀ c₁ c₂, t.cache = some c₁ → u.cache = some c₂ → ∀ k, c₂.pins.get? k = c₁.pins.get? k := by
  obtain ⟨r, hr⟩ : ∃ r, autoPinIps cfg trial (loadPins s s.pinnedPath) c = r := ⟨_, rfl⟩
  obtain ⟨hupdates, hcache, hpinned⟩ := autoPin_saves hc hpath hclean h hr
  have hload : loadPins s s.pinnedPath = readPins (s.files s.pinnedPath) := if_neg hpath
  have hagain : loadPins t t.pinnedPath = readPins (t.files s.pinnedPath) := by
    rw [hpinned]
    exact if_neg hpath
  have hspec (k : String) : ∃ picked, AutoPinned cfg trial (readPins (s.files s.pinnedPath)) c r k picked := by
    rw [← hr, hload]
    exact autoPinIps_spec _ c k
  obtain ⟨r', hr'⟩ : ∃ r', autoPinIps cfg again (loadPins t t.pinnedPath) r.cache = r' := ⟨_, rfl⟩
  have hspec' (k : String) : ∃ picked, AutoPinned cfg again (readPins (t.files s.pinnedPath)) r.cache r' k picked := by
    rw [← hr', hagain]
    exact autoPinIps_spec _ r.cache k
  have hentries : r.cache.entries = c.entries := by
    rw [← hr]
    exact pinDomains_entries fun d hd => (hheld d hd).imp fun ips hips => hips.1
  have hboth (k : String) : ∃ picked, AutoPinned cfg trial (readPins (s.files s.pinnedPath)) c r k picked ∧
      (readPins (t.files s.pinnedPath)).get? k = picked.or ((readPins (s.files s.pinnedPath)).get? k) ∧
      AutoPinned cfg again (readPins (t.files s.pinnedPath)) r.cache r' k picked ∧
      existing (readPins (t.files s.pinnedPath)) r.cache k =
        picked.or (existing (readPins (s.files s.pinnedPath)) c k) := by
    obtain ⟨picked, hpicked⟩ := hspec k
    obtain ⟨picked', hpicked'⟩ := hspec' k
    have hmerged := hpicked.merged (hupdates k)
    obtain ⟨rfl, hexisting⟩ := hpicked.again hpicked' (pinned_readPins _) (pinned_readPins _) hmerged hsame hentries hheld
    exact ⟨_, hpicked, hmerged, hpicked', hexisting⟩
  refine ⟨fun k ips hk hips => ?_, fun k hk => ?_, ?_⟩
  · obtain ⟨picked, hpicked, hmerged, -⟩ := hboth k
    rw [hmerged, hpicked.held hk (fun d hd => (hheld d hd).imp fun ips hips => hips.1) hips]
  · obtain ⟨picked, hpicked, hmerged, -⟩ := hboth k
    rw [hmerged, hpicked.absent fun hmem => hk (List.mem_filter.mp hmem).1, Option.none_or]
  · have hquiet : saved (loadPins t t.pinnedPath) r'.updates = none := by
      refine if_pos (sameDict_of_get? fun k => ?_)
      obtain ⟨picked, -, hmerged, hpicked', -⟩ := hboth k
      rw [hagain, hpicked'.merged rfl, hmerged]
      cases picked <;> rfl
    have hsecond : step cfg hostsFile t (.autoPin again true) = some { t with cache := some r'.cache } := by
      have hsame : saved (loadPins { t with cache := some r'.cache } t.pinnedPath) r'.updates = none := hquiet
      rw [autoPin_step hcache again true, hr', savePins, hsame]
    refine ⟨_, hsecond, rfl, fun c₁ c₂ h₁ h₂ k => ?_⟩
    obtain rfl := Option.some.inj (hcache.symm.trans h₁)
    obtain rfl := Option.some.inj h₂
    obtain ⟨picked, hpicked, -, hpicked', hexisting⟩ := hboth k
    rw [hpicked'.cache, hexisting, hpicked.cache]
    cases picked <;> rfl

def heldCache : DnsRunCache := { entries := ⟨[("a.com", ⟨["2.2.2.2"], 0, .stored⟩)], by decide⟩ }

theorem heldCache_settles : ∃ t, step {} "hosts" { firstState with pinnedPath := "hosts", cache := some heldCache }
      (.autoPin firstTrial true) = some t ∧
    ∃ u, step {} "hosts" t (.autoPin firstTrial true) = some u ∧ u.files = t.files := by
  obtain ⟨t, ht⟩ : ∃ t, step {} "hosts" { firstState with pinnedPath := "hosts", cache := some heldCache }
      (.autoPin firstTrial true) = some t := ⟨_, rfl⟩
  have hheld : ∀ d ∈ heldCache.entries.keys.filter (· ≠ ""), ∃ ips, Held {} firstTrial heldCache d ips ∧
      Held {} firstTrial heldCache d ips := by
    intro d hd
    obtain rfl := List.mem_singleton.mp (List.mem_filter.mp hd).1
    have hfresh : ¬ ({} : Config).dnsCacheTtl < 0 - 0 := by decide +kernel
    have hone : Held {} firstTrial heldCache "a.com" ["2.2.2.2"] :=
      ⟨⟨["2.2.2.2"], 0, .stored⟩, by decide, rfl, List.cons_ne_nil _ _, fun _ => hfresh⟩
    exact ⟨_, hone, hone⟩
  have hpath : "hosts" ≠ "" := by decide
  obtain ⟨-, -, u, hu, hfiles, -⟩ := autoPin_settles rfl hpath hheld rfl (fun k ip h _ => firstTrial_clean k ip h) ht
  exact ⟨t, ht, u, hu, hfiles⟩

end runs

end Blockchecks.DnsPinService
