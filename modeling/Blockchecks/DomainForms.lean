import Blockchecks.DomainSpelling

namespace Blockchecks.DomainForms

open StrategyText LuaConf DomainLoader DomainDeny TextLines DomainSpelling

/-- What canonical domains are meant to be, for one list of them. -/
structure Canonical (domains : List String) : Prop where
  idempotent : filterProbeDomains (filterProbeDomains domains) = filterProbeDomains domains
  nodup : (filterProbeDomains domains).Nodup
  no_ip : ∀ d ∈ filterProbeDomains domains, HostsPins.isIp d.toList = false
  spelling : ∀ domains', List.Forall₂ Similar domains domains' →
    filterProbeDomains domains' = filterProbeDomains domains

variable {text tail : List Char} {raw raw' : String} {c : Char}

/-- The text of a line with another tail is a line of the same name. -/
theorem lowered_retail (raw : String) (htail : ∀ c ∈ tail, isTail c = true) :
    lowered (String.ofList (cut (lowered raw) ++ tail)) = cut (lowered raw) ++ tail := by
  rw [lowered, String.toList_ofList]
  refine (List.map_congr_left fun c hc => ?_).trans (List.map_id _)
  rcases List.mem_append.mp hc with hc | hc
  · obtain ⟨_, _, _, hsplit⟩ := cut_spec (lowered raw)
    have hin : c ∈ lowered raw := by
      rw [hsplit]
      exact List.mem_append_left _ hc
    obtain ⟨d, _, rfl⟩ := List.mem_map.mp hin
    exact lowerChar_lowerChar d
  · rcases Bool.or_eq_true_iff.mp (htail c hc) with h | h
    · rw [beq_iff_eq.mp h]; rfl
    · rw [beq_iff_eq.mp h]; rfl

theorem similar_retail (raw : String) (htail : ∀ c ∈ tail, isTail c = true) :
    Similar raw (String.ofList (cut (lowered raw) ++ tail)) := by
  rw [DomainSpelling.Similar, lowered_retail raw htail, cut_cut_append htail]

theorem filterProbeDomains_eq (domains : List String) :
    filterProbeDomains domains = addAll [] (domains.filterMap canonicalizeProbeDomain) := by
  rw [filterProbeDomains, addAll, List.foldl_filterMap]
  congr
  funext kept raw
  rw [keepDomain]
  cases canonicalizeProbeDomain raw <;> rfl

theorem addAll_nodup {seen new : List String} (h : (seen ++ new).Nodup) : addAll seen new = seen ++ new := by
  induction new generalizing seen with
  | nil => rw [addAll, List.foldl_nil, List.append_nil]
  | cons v new ih =>
      have hv : v ∉ seen := fun hin => (List.nodup_append.mp h).2.2 v hin v List.mem_cons_self rfl
      have hfold : addAll seen (v :: new) = addAll (if v ∈ seen then seen else seen ++ [v]) new := rfl
      rw [hfold, if_neg hv, ih (by rwa [List.append_assoc, List.singleton_append]), List.append_assoc,
        List.singleton_append]

/-- Unless it is an address, a name is its own canonical form. -/
theorem canonicalize_canonical {d : String} (h : canonicalizeProbeDomain raw = some d) :
    canonicalizeProbeDomain d = if isLiteralIp d.toList then none else some d := by
  rw [canonicalize_eq] at h
  split at h
  next hacc =>
    obtain rfl := Option.some.inj h
    have hname := (accepted_iff.mp hacc).1
    have hlow : lowered (String.ofList (nameIn (lowered raw))) = nameIn (lowered raw) := by
      rw [nameIn_lowered, lowered, String.toList_ofList, rstripChar_lower (by decide), List.map_map]
      have hidem : lowerChar ∘ lowerChar = lowerChar := funext lowerChar_lowerChar
      rw [hidem]
    have hunspaced : ∀ c ∈ nameIn (lowered raw), isSpace c = false := by
      intro c hc
      rcases isFqdn_chars hname hc with h | rfl | rfl
      · exact unspaced_of_isLabelChar h
      · decide
      · decide
    have hstrip : strip (nameIn (lowered raw)) = nameIn (lowered raw) :=
      strip_eq_self (fun c hc => hunspaced c (List.mem_of_head? hc)) (fun c hc => hunspaced c (List.mem_of_getLast? hc))
    have hend : ∀ c ∈ (nameIn (lowered raw)).getLast?, isTail c = false := by
      obtain ⟨front, last, hsplit, hlast⟩ := isFqdn_last hname
      intro c hc
      rw [hsplit, List.getLast?_concat] at hc
      rwa [← Option.some.inj hc]
    have hself := nameIn_orderly 0 0 (fun c hc => hunspaced c (List.mem_of_getLast? hc)) hend
    simp only [List.replicate_zero, List.append_nil] at hself
    rw [canonicalize_eq, hlow, accepted, hself, hstrip, hname, String.toList_ofList]
    cases isLiteralIp (nameIn (lowered raw)) <;> rfl
  next => cases h

theorem isFqdn_of_canonicalize {d : String} (h : canonicalizeProbeDomain raw = some d) : isFqdn d.toList = true := by
  rw [canonicalize_eq] at h
  split at h
  next hacc =>
    rw [← Option.some.inj h, String.toList_ofList]
    exact (accepted_iff.mp hacc).1
  next => cases h

/-- No name has the colons of an IPv6 address. -/
theorem isIp_of_isFqdn (h : isFqdn text = true) : HostsPins.isIp text = isLiteralIp text := by
  have hcolon : ':' ∉ text.takeWhile (· ≠ '%') := by
    intro hin
    rcases isFqdn_chars h ((List.takeWhile_sublist _).subset hin) with hc | hc | hc
    · exact absurd hc (by decide)
    · exact absurd hc (by decide)
    · exact absurd hc (by decide)
  have hsix : HostsPins.isIpv6Text (text.takeWhile (· ≠ '%')) = false := by
    rw [HostsPins.isIpv6Text, split_char (c := ':') rfl, List.splitOn_eq_singleton hcolon]
    rfl
  rw [HostsPins.isIp, HostsPins.isIpv6, hsix, Bool.and_false, Bool.or_false]

theorem dressedIp_iff : DressedIp raw ↔ ∃ d, canonicalizeProbeDomain raw = some d ∧ isLiteralIp d.toList = true := by
  rw [DressedIp, canonicalize_eq]
  constructor
  · rintro ⟨hname, hip⟩
    have hacc : accepted (lowered raw) = true := accepted_iff.mpr ⟨isFqdn_of_isLiteralIp hname, hip⟩
    refine ⟨String.ofList (nameIn (lowered raw)), if_pos hacc, ?_⟩
    rw [String.toList_ofList]
    exact hname
  · rintro ⟨d, hd, hip⟩
    split at hd
    next hacc =>
      rw [← Option.some.inj hd, String.toList_ofList] at hip
      exact ⟨hip, (accepted_iff.mp hacc).2⟩
    next => cases hd

variable {domains domains' : List String}

theorem no_ip_iff : (∀ d ∈ filterProbeDomains domains, HostsPins.isIp d.toList = false) ↔
    ∀ raw ∈ domains, ¬ DressedIp raw := by
  constructor
  · intro h raw hraw hdressed
    obtain ⟨d, hd, hip⟩ := dressedIp_iff.mp hdressed
    have hno := h d (mem_filterProbeDomains.mpr ⟨raw, hraw, hd⟩)
    rw [isIp_of_isFqdn (isFqdn_of_canonicalize hd), hip] at hno
    cases hno
  · intro h d hd
    obtain ⟨raw, hraw, hcanon⟩ := mem_filterProbeDomains.mp hd
    rw [isIp_of_isFqdn (isFqdn_of_canonicalize hcanon)]
    exact Bool.eq_false_iff.mpr fun hip => h raw hraw (dressedIp_iff.mpr ⟨d, hcanon, hip⟩)

theorem idempotent_iff : filterProbeDomains (filterProbeDomains domains) = filterProbeDomains domains ↔
    ∀ raw ∈ domains, ¬ DressedIp raw := by
  rw [← no_ip_iff]
  have hcanon : ∀ d ∈ filterProbeDomains domains,
      canonicalizeProbeDomain d = if HostsPins.isIp d.toList then none else some d := by
    intro d hd
    obtain ⟨raw, _, hcanon⟩ := mem_filterProbeDomains.mp hd
    rw [canonicalize_canonical hcanon, isIp_of_isFqdn (isFqdn_of_canonicalize hcanon)]
  constructor
  · intro h d hd
    have hd' := hd
    rw [← h, mem_filterProbeDomains] at hd'
    obtain ⟨raw, hraw, hcanon'⟩ := hd'
    rw [hcanon raw hraw] at hcanon'
    split at hcanon'
    next => cases hcanon'
    next hip => rw [← Option.some.inj hcanon']; exact Bool.eq_false_iff.mpr hip
  · intro h
    have hsome : (filterProbeDomains domains).filterMap canonicalizeProbeDomain = filterProbeDomains domains := by
      refine (List.filterMap_congr fun d hd => ?_).trans List.filterMap_some
      rw [hcanon d hd, h d hd]
      rfl
    rw [filterProbeDomains_eq (filterProbeDomains domains), hsome,
      addAll_nodup ((filterProbeDomains_spec domains).1), List.nil_append]

theorem filter_nil_iff : filterProbeDomains domains = [] ↔ ∀ raw ∈ domains, accepted (lowered raw) = false := by
  rw [List.eq_nil_iff_forall_not_mem]
  constructor
  · intro h raw hraw
    refine Bool.eq_false_iff.mpr fun hacc => ?_
    rw [← canonicalize_isSome, Option.isSome_iff_exists] at hacc
    obtain ⟨d, hd⟩ := hacc
    exact h d (mem_filterProbeDomains.mpr ⟨raw, hraw, hd⟩)
  · intro h d hd
    obtain ⟨raw, hraw, hcanon⟩ := mem_filterProbeDomains.mp hd
    have hacc := h raw hraw
    rw [← canonicalize_isSome, hcanon] at hacc
    cases hacc

/-- Every line can be spelled so that it is dropped, and a named one so that it is kept. -/
theorem spelling_iff : (∀ domains', List.Forall₂ Similar domains domains' →
      filterProbeDomains domains' = filterProbeDomains domains) ↔ ∀ raw ∈ domains, ¬ Named raw := by
  constructor
  · intro h raw hraw hnamed
    have hmap {f : String → String} (hf : ∀ r, Similar r (f r)) :
        filterProbeDomains (domains.map f) = filterProbeDomains domains :=
      h _ (List.forall₂_map_right_iff.mpr (List.forall₂_same.mpr fun r _ => hf r))
    have hslash : ∀ c ∈ ['/', '.'], isTail c = true := List.all_eq_true.mp (by decide)
    have hnil : filterProbeDomains domains = [] := by
      rw [← hmap fun r => similar_retail r hslash, filter_nil_iff]
      intro r hr
      obtain ⟨r', _, rfl⟩ := List.mem_map.mp hr
      rw [lowered_retail r' hslash]
      exact not_accepted_slash_dot _
    have hall (tail : List Char) (htail : ∀ c ∈ tail, isTail c = true) : accepted (cut (lowered raw) ++ tail) = false := by
      have hkept := hmap fun r => similar_retail r htail
      rw [hnil, filter_nil_iff] at hkept
      rw [← lowered_retail raw htail]
      exact hkept _ (List.mem_map_of_mem hraw)
    rcases accepted_of_named hnamed with hacc | hacc
    · have hno := hall [] (fun _ h => absurd h List.not_mem_nil)
      rw [List.append_nil, hacc] at hno
      cases hno
    · have hno := hall ['.'] (List.all_eq_true.mp (by decide))
      rw [hacc] at hno
      cases hno
  · intro h domains' hsimilar
    have hnil {ds : List String} (hds : ∀ raw ∈ ds, ¬ Named raw) : filterProbeDomains ds = [] :=
      filter_nil_iff.mpr fun raw hraw => Bool.eq_false_iff.mpr fun hacc => hds raw hraw (named_of_accepted hacc)
    rw [hnil h, hnil]
    intro raw' hraw' hnamed
    obtain ⟨raw, hraw, hsim⟩ : ∃ raw ∈ domains, Similar raw raw' := by
      clear hnil h
      induction hsimilar with
      | nil => cases hraw'
      | cons hsim _ ih =>
          rcases List.mem_cons.mp hraw' with rfl | hraw'
          · exact ⟨_, List.mem_cons_self, hsim⟩
          · obtain ⟨raw, hraw, hsim⟩ := ih hraw'
            exact ⟨raw, List.mem_cons_of_mem _ hraw, hsim⟩
    apply h raw hraw
    rw [Named, hsim]
    exact hnamed

/-- With its dots in front of its slashes, a line is read as the name that it spells. -/
theorem canonicalize_orderly (h : Orderly raw) (hip : isLiteralIp (strip (cut (lowered raw))) = false) :
    canonicalizeProbeDomain raw = if isFqdn (nameIn (cut (lowered raw))) then
      some (String.ofList (nameIn (cut (lowered raw)))) else none := by
  obtain ⟨dots, slashes, hsplit, hspace⟩ := h
  have hlast := (cut_spec (lowered raw)).1
  rw [canonicalize_eq, accepted]
  by_cases hend : ∀ c ∈ (cut (lowered raw)).getLast?, isSpace c = false
  · have hname := nameIn_orderly dots slashes hend hlast
    have hbare := nameIn_orderly 0 0 hend hlast
    rw [← hsplit] at hname
    simp only [List.replicate_zero, List.append_nil] at hbare
    have hlit : isLiteralIp (strip (lowered raw)) = false := by
      rw [hsplit, strip_tail isTail_orderly hend]
      by_cases hnil : List.replicate dots '.' ++ List.replicate slashes '/' = []
      · rw [hnil, List.append_nil]
        exact hip
      · exact isLiteralIp_tail hnil isTail_orderly
    rw [hname, hbare, hlit, Bool.not_false, Bool.and_true]
  · simp only [not_forall, Bool.not_eq_false] at hend
    obtain ⟨c, hc, hcspace⟩ := hend
    obtain ⟨rfl, rfl⟩ := hspace ⟨c, hc, hcspace⟩
    rw [List.replicate_zero, List.replicate_zero, List.append_nil, List.append_nil] at hsplit
    rw [← hsplit] at hip ⊢
    rw [hip, Bool.not_false, Bool.and_true]

theorem filter_orderly (hsimilar : List.Forall₂ Similar domains domains')
    (h : ∀ raw ∈ domains ++ domains', Orderly raw ∧ isLiteralIp (strip (cut (lowered raw))) = false) :
    filterProbeDomains domains' = filterProbeDomains domains := by
  have hmap : domains'.map canonicalizeProbeDomain = domains.map canonicalizeProbeDomain := by
    induction hsimilar with
    | nil => rfl
    | @cons raw raw' domains domains' hsim _ ih =>
        obtain ⟨hraw, hip⟩ := h raw (List.mem_append_left _ List.mem_cons_self)
        obtain ⟨hraw', hip'⟩ := h raw' (List.mem_append_right _ List.mem_cons_self)
        rw [List.map_cons, List.map_cons, canonicalize_orderly hraw hip, canonicalize_orderly hraw' hip',
          ← hsim, ih]
        intro r hr
        refine h r ?_
        rcases List.mem_append.mp hr with hr | hr
        · exact List.mem_append_left _ (List.mem_cons_of_mem _ hr)
        · exact List.mem_append_right _ (List.mem_cons_of_mem _ hr)
  have hid (ds : List String) : ds.filterMap canonicalizeProbeDomain =
      (ds.map canonicalizeProbeDomain).filterMap id := by
    rw [List.filterMap_map]
    rfl
  rw [filterProbeDomains_eq, filterProbeDomains_eq, hid, hid, hmap]

/-- A name can be spelled so that it is dropped; a list without names meets all of the claim. With
its dots in front of its slashes every spelling of a name is taken. -/
theorem canonical_iff (domains : List String) :
    (Canonical domains ↔ ∀ raw ∈ domains, ¬ Named raw) ∧
    ((filterProbeDomains (filterProbeDomains domains) = filterProbeDomains domains ∧
      ∀ d ∈ filterProbeDomains domains, HostsPins.isIp d.toList = false) ↔ ∀ raw ∈ domains, ¬ DressedIp raw) ∧
    ∀ domains', List.Forall₂ Similar domains domains' →
      (∀ raw ∈ domains ++ domains', Orderly raw ∧ isLiteralIp (strip (cut (lowered raw))) = false) →
      filterProbeDomains domains' = filterProbeDomains domains := by
  refine ⟨⟨fun h => spelling_iff.mp h.spelling, fun h => ?_⟩, ?_, fun _ => filter_orderly⟩
  · have hdressed : ∀ raw ∈ domains, ¬ DressedIp raw := by
      intro raw hraw hip
      obtain ⟨d, hd, _⟩ := dressedIp_iff.mp hip
      have hacc : accepted (lowered raw) = true := by rw [← canonicalize_isSome, hd]; rfl
      exact h raw hraw (named_of_accepted hacc)
    exact ⟨idempotent_iff.mpr hdressed, (filterProbeDomains_spec domains).1, no_ip_iff.mpr hdressed,
      spelling_iff.mpr h⟩
  · rw [idempotent_iff, no_ip_iff, and_self_iff]

/-- A dot hides an address from the test, and is taken off behind it. -/
theorem dotted_address_kept : ¬ ∀ domains, Canonical domains := by
  intro h
  have hno := (h ["1.2.3.4."]).no_ip "1.2.3.4" (by decide)
  exact absurd hno (by decide)

end Blockchecks.DomainForms
