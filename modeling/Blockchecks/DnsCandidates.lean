import Blockchecks.DnsSecure

namespace Blockchecks.DnsCandidates

open OrderedDict DnsSecure

/-- The pin that a resolution puts in front. -/
def effectivePin (c : DnsRunCache) (domain : String) : Option String := (c.pins.get? domain).filter (· ≠ "")

section config

variable (cfg : Config)

/-- What the cache has of a domain, if it has not expired. -/
def fresh (lookedAt : ℚ) (c : DnsRunCache) (domain : String) : List String := (get cfg c domain lookedAt).2.getD []

/-- What the servers give for a domain, and after them the store. -/
def answered (net : Net) (c : DnsRunCache) (domain : String) : List String :=
  match chooseUrl cfg net c "" with
  | none => []
  | some url => if usable (net.ask url) then (net.ask url).1 else (rotate cfg net domain url (net.ask url).1).2

def returned (lookedAt : ℚ) (net : Net) (c : DnsRunCache) (domain : String) : List String :=
  if fresh cfg lookedAt c domain ≠ [] then fresh cfg lookedAt c domain else answered cfg net c domain

def found (lookedAt : ℚ) (net : Net) (c : DnsRunCache) (domain : String) : List String :=
  (candidates cfg lookedAt net c domain).2

/-- The candidates of a cache do not change with its pins, and show a pin only where it
was returned. -/
def PinFree (lookedAt : ℚ) (net : Net) (c : DnsRunCache) (pins : Dict String String) (domain : String) : Prop :=
  found cfg lookedAt net { c with pins } domain = found cfg lookedAt net c domain ∧
    (∀ pin ∈ c.pins.get? domain, pin ∈ found cfg lookedAt net c domain → pin ∈ returned cfg lookedAt net c domain) ∧
    ∀ pin ∈ pins.get? domain, pin ∈ found cfg lookedAt net { c with pins } domain →
      pin ∈ returned cfg lookedAt net c domain

/-- The pins of two caches do not move the addresses of a domain. -/
def Idle (ips : List String) (c c' : DnsRunCache) (domain : String) : Prop :=
  effectivePin c' domain = effectivePin c domain ∧ (∀ pin ∈ effectivePin c domain, pin ∈ ips) ∨
    (∀ pin ∈ effectivePin c domain, ips.head? = some pin) ∧ ∀ pin ∈ effectivePin c' domain, ips.head? = some pin

variable {cfg} {c : DnsRunCache} {domain : String} {ips : List String}

theorem get_cases (cfg : Config) (c : DnsRunCache) (domain : String) (now : ℚ) :
    (get cfg c domain now = ([], none) ∧ c.entries.get? domain = none) ∨
      get cfg c domain now = ([.drop domain], none) ∨
      ∃ e, get cfg c domain now = ([], some e.ips) ∧ c.entries.get? domain = some e := by
  rw [DnsSecure.get]
  cases c.entries.get? domain with
  | none => exact .inl ⟨rfl, rfl⟩
  | some e =>
      by_cases hold : cfg.dnsCacheTtl < now - e.ts
      · exact .inr (.inl (if_pos hold))
      · exact .inr (.inr ⟨e, if_neg hold, rfl⟩)

/-- What resolve reads where candidates has read nothing. -/
theorem get_again {now : ℚ} (hstale : fresh cfg now c domain = []) (now' : ℚ) :
    (get cfg (applyAll c (get cfg c domain now).1) domain now').2.getD [] = [] := by
  rw [fresh] at hstale
  rcases get_cases cfg c domain now with ⟨hget, hnone⟩ | hget | ⟨e, hget, hentry⟩
  · rw [hget]
    change (get cfg c domain now').2.getD [] = []
    rw [DnsSecure.get, hnone]
    rfl
  · rw [hget]
    change (get cfg { c with entries := c.entries.erase domain } domain now').2.getD [] = []
    rw [DnsSecure.get, Dict.get?_erase, if_pos rfl]
    rfl
  · rw [hget] at hstale ⊢
    change (get cfg c domain now').2.getD [] = []
    rw [DnsSecure.get, hentry]
    dsimp only
    split
    · rfl
    · exact hstale

theorem applyAll_get (cfg : Config) (c : DnsRunCache) (domain : String) (now : ℚ) :
    (applyAll c (get cfg c domain now).1).pins = c.pins ∧
    (applyAll c (get cfg c domain now).1).dohServer = c.dohServer := by
  rcases get_cases cfg c domain now with ⟨hget, -⟩ | hget | ⟨e, hget, -⟩
  all_goals rw [hget]; exact ⟨rfl, rfl⟩

/-- The pins have a say only where the cache has nothing. -/
theorem found_eq (lookedAt : ℚ) (net : Net) (c : DnsRunCache) (domain : String) :
    found cfg lookedAt net c domain =
      if fresh cfg lookedAt c domain ≠ [] then fresh cfg lookedAt c domain
      else pinnedFirst c domain (answered cfg net c domain) := by
  obtain ⟨hpins, hserver⟩ := applyAll_get cfg c domain lookedAt
  rw [found, candidates]
  dsimp only
  change (if fresh cfg lookedAt c domain ≠ [] then _ else _ : List Write × List String).2 = _
  by_cases hfresh : fresh cfg lookedAt c domain = []
  · have hagain := get_again hfresh net.now
    have hpinned (ips : List String) : pinnedFirst (applyAll c (get cfg c domain lookedAt).1) domain ips =
        pinnedFirst c domain ips := by rw [pinnedFirst, hpins, pinnedFirst]
    have hurl : chooseUrl cfg net (applyAll c (get cfg c domain lookedAt).1) "" = chooseUrl cfg net c "" := by
      rw [chooseUrl, hserver, chooseUrl]
    rw [if_neg (not_not.mpr hfresh), if_neg (not_not.mpr hfresh), resolve]
    dsimp only
    rw [if_neg (not_not.mpr hagain), hurl, answered]
    cases chooseUrl cfg net c "" with
    | none => exact hpinned []
    | some url =>
        dsimp only
        rw [hpinned]
        split <;> rfl
  · rw [if_pos hfresh, if_pos hfresh]
    rfl

theorem pinnedFirst_eq : pinnedFirst c domain ips = match effectivePin c domain with
    | none => ips
    | some pin => if pin ∉ ips then pin :: ips else if ips.head? ≠ some pin then pin :: ips.filter (· ≠ pin) else ips := by
  rw [pinnedFirst, effectivePin]
  cases c.pins.get? domain with
  | none => rfl
  | some pin =>
      by_cases hempty : pin = ""
      · rw [hempty]
        rfl
      · have hfilter : (some pin).filter (fun x => decide (x ≠ "")) = some pin :=
          if_pos (decide_eq_true hempty)
        rw [hfilter]
        exact if_neg hempty

theorem pinnedFirst_head {pin : String} (hpin : effectivePin c domain = some pin) :
    (pinnedFirst c domain ips).head? = some pin := by
  rw [pinnedFirst_eq, hpin]
  dsimp only
  split
  · rfl
  · split
    · rfl
    next hhead => exact not_not.mp hhead

theorem pinnedFirst_self (hhead : ∀ pin ∈ effectivePin c domain, ips.head? = some pin) :
    pinnedFirst c domain ips = ips := by
  rw [pinnedFirst_eq]
  cases hpin : effectivePin c domain with
  | none => rfl
  | some pin =>
      have hfirst := hhead pin hpin
      have hmem : pin ∈ ips := List.mem_of_mem_head? hfirst
      dsimp only
      rw [if_neg (not_not.mpr hmem), if_neg (not_not.mpr hfirst)]

theorem mem_pinnedFirst {pin : String} (hpin : effectivePin c domain = some pin) : pin ∈ pinnedFirst c domain ips :=
  List.mem_of_mem_head? (pinnedFirst_head hpin)

theorem effectivePin_get {pin : String} (hpin : effectivePin c domain = some pin) : c.pins.get? domain = some pin :=
  (Option.filter_eq_some_iff.mp hpin).1

/-- A pin stands in an answer only where it was returned, or is effective. -/
theorem mem_pinnedFirst_iff : (∀ pin ∈ c.pins.get? domain, pin ∈ pinnedFirst c domain ips → pin ∈ ips) ↔
    ∀ pin ∈ effectivePin c domain, pin ∈ ips := by
  constructor
  · intro h pin hpin
    exact h pin (effectivePin_get hpin) (mem_pinnedFirst hpin)
  · intro h pin hpin hmem
    by_cases hempty : pin = ""
    · have hnone : effectivePin c domain = none := by
        rw [effectivePin, hpin, hempty]
        rfl
      rwa [pinnedFirst_eq, hnone] at hmem
    · exact h pin (Option.filter_eq_some_iff.mpr ⟨hpin, decide_eq_true hempty⟩)

theorem pinnedFirst_congr {c' : DnsRunCache} (hpins : effectivePin c' domain = effectivePin c domain) :
    pinnedFirst c' domain ips = pinnedFirst c domain ips := by
  rw [pinnedFirst_eq, hpins, ← pinnedFirst_eq]

/-- Two lists of pins in front of the same answer. -/
theorem idle_iff {c' : DnsRunCache} : Idle ips c c' domain ↔
    pinnedFirst c' domain ips = pinnedFirst c domain ips ∧ (∀ pin ∈ effectivePin c domain, pin ∈ ips) ∧
      ∀ pin ∈ effectivePin c' domain, pin ∈ ips := by
  constructor
  · rintro (⟨hsame, hmem⟩ | ⟨hhead, hhead'⟩)
    · exact ⟨pinnedFirst_congr hsame, hmem, hsame ▸ hmem⟩
    · refine ⟨(pinnedFirst_self hhead').trans (pinnedFirst_self hhead).symm, fun pin hpin => ?_, fun pin hpin => ?_⟩
      · exact List.mem_of_mem_head? (hhead pin hpin)
      · exact List.mem_of_mem_head? (hhead' pin hpin)
  · rintro ⟨heq, hmem, hmem'⟩
    cases hpin : effectivePin c domain with
    | none =>
        refine .inr ⟨fun pin h => absurd (hpin ▸ h) (Option.not_mem_none pin), fun pin hpin' => ?_⟩
        rw [← pinnedFirst_head hpin', heq, pinnedFirst_eq, hpin]
    | some pin =>
        cases hpin' : effectivePin c' domain with
        | none =>
            refine .inr ⟨fun pin' h => ?_, fun pin h => absurd (hpin' ▸ h) (Option.not_mem_none pin)⟩
            rw [← pinnedFirst_head (c := c) h, ← heq, pinnedFirst_eq, hpin']
        | some pin' =>
            have hsame : some pin' = some pin := by
              rw [← pinnedFirst_head hpin', heq, pinnedFirst_head hpin]
            exact .inl ⟨hpin'.trans (hsame.trans hpin.symm), hmem⟩

variable (cfg)

/-- Pins leave the candidates alone if the cache has addresses, or if they name what the
servers give first, or the same of it. -/
theorem pin_free_iff (lookedAt : ℚ) (net : Net) (c : DnsRunCache) (pins : Dict String String) (domain : String) :
    PinFree cfg lookedAt net c pins domain ↔
      fresh cfg lookedAt c domain ≠ [] ∨ Idle (answered cfg net c domain) c { c with pins } domain := by
  have hfresh : fresh cfg lookedAt { c with pins } domain = fresh cfg lookedAt c domain := rfl
  have hanswered : answered cfg net { c with pins } domain = answered cfg net c domain := rfl
  have hpins : pins = ({ c with pins } : DnsRunCache).pins := rfl
  rw [PinFree, found_eq, found_eq, hfresh, hanswered, returned]
  by_cases hnil : fresh cfg lookedAt c domain = []
  · rw [if_neg (not_not.mpr hnil), if_neg (not_not.mpr hnil), if_neg (not_not.mpr hnil), or_iff_right (not_not.mpr hnil),
      idle_iff, mem_pinnedFirst_iff]
    exact and_congr_right' (and_congr_right' (mem_pinnedFirst_iff (c := { c with pins })))
  · rw [if_pos hnil, if_pos hnil, if_pos hnil]
    exact iff_of_true ⟨rfl, fun _ _ h => h, fun _ _ h => h⟩ (.inl hnil)

/-- A pin that no server gave. -/
theorem pin_joins_candidates : ¬ PinFree {} 0 ⟨0, 0, fun _ => ([], ""), fun _ => (["93.184.216.34"], ""), []⟩
    { dohServer := "https://dns.google/dns-query" } (Dict.empty.set "example.com" "10.0.0.1") "example.com" := by
  intro h
  exact absurd h.1 (by decide +kernel)

end config

end Blockchecks.DnsCandidates
