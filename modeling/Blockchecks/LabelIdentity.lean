import Blockchecks.GeneratedLabels
import Blockchecks.ProbeService
import Blockchecks.RunnerComplete

namespace Blockchecks.LabelIdentity

open AdaptiveQueue AdaptiveJobQueue FamilyAxes FamilyCodes FamilyExpanders FamilyForms FamilyRows GeneratedLabels
open OrderedDict QueueInvariant QueueMark RunnerComplete StandardGenerator StrategyText

/-- Distinct strategies of the items have distinct labels. -/
def Labelled (items : List StrategyItem) : Prop :=
  ∀ i ∈ items, ∀ j ∈ items, i.strategy ≠ j.strategy → i.label ≠ j.label

/-- The jobs of a queue for a strategy and a domain. -/
def jobsFor (q : AdaptiveJobQueue) (strategy domain : String) : List AdaptiveJob :=
  q.pending.values.filter (fun job => job.item.strategy = strategy ∧ job.domain = domain)

/-- The labels identify the strategies, and a queue that is built of the items has
one job for each strategy and each domain that is not skipped, and no other jobs. -/
structure Identified (items : List StrategyItem) : Prop where
  labelled : Labelled items
  one : ∀ domains weights epsilon skipDomains skipKeys, ∀ item ∈ items, ∀ dom ∈ domains, dom ∉ skipDomains →
    (item.label, dom) ∉ skipKeys →
      jobsFor (build items domains weights epsilon skipDomains skipKeys) item.strategy dom = [.fromItem item dom]
  only : ∀ domains weights epsilon skipDomains skipKeys,
    ∀ job ∈ (build items domains weights epsilon skipDomains skipKeys).pending.values, ∃ item ∈ items,
      job = .fromItem item job.domain ∧ job.domain ∈ domains ∧ job.domain ∉ skipDomains ∧
        (item.label, job.domain) ∉ skipKeys

section build

variable {items : List StrategyItem} {domains : List String} {weights : ScanWeights.Weights} {epsilon : ℚ}
  {skipDomains : Finset String} {skipKeys : Finset Key}

theorem mem_enqueueMany {q : AdaptiveJobQueue} {jobs : List AdaptiveJob} {job : AdaptiveJob}
    (h : job ∈ (q.enqueueMany jobs).pending.values) : job ∈ q.pending.values ∨ job ∈ jobs := by
  rw [enqueueMany] at h
  induction jobs generalizing q with
  | nil => exact .inl h
  | cons next jobs ih =>
      rcases ih h with hmem | hmem
      · obtain ⟨k, hk⟩ := (Dict.mem_values_iff _ _).mp hmem
        rw [get?_enqueue] at hk
        split at hk
        next => exact .inr (List.mem_cons.mpr (.inl (Option.some.inj hk).symm))
        next => exact .inl ((Dict.mem_values_iff _ _).mpr ⟨k, hk⟩)
      · exact .inr (List.mem_cons_of_mem _ hmem)

theorem mem_build {job : AdaptiveJob}
    (h : job ∈ (build items domains weights epsilon skipDomains skipKeys).pending.values) :
    ∃ item ∈ items, job = .fromItem item job.domain ∧ job.domain ∈ domains ∧ job.domain ∉ skipDomains ∧
      (item.label, job.domain) ∉ skipKeys := by
  rw [build] at h
  rcases mem_enqueueMany h with h | h
  · obtain ⟨k, hk⟩ := (Dict.mem_values_iff _ _).mp h
    have hempty : (Dict.empty : Dict Key AdaptiveJob).get? k = some job := hk
    cases (Dict.get?_empty k).symm.trans hempty
  · obtain ⟨⟨item, dom⟩, hfresh, rfl⟩ := List.mem_map.mp h
    obtain ⟨hmatrix, hskip⟩ := List.mem_filter.mp hfresh
    obtain ⟨hdom, hkey⟩ := of_decide_eq_true hskip
    obtain ⟨item', hitem, hpair⟩ := List.mem_flatMap.mp hmatrix
    obtain ⟨dom', hdom', hpair⟩ := List.mem_map.mp hpair
    obtain ⟨rfl, rfl⟩ := Prod.mk.inj hpair
    exact ⟨item', hitem, rfl, hdom', hdom, hkey⟩

theorem values_nodup {q : AdaptiveJobQueue} (h : Valid q) : q.pending.values.Nodup := by
  have hkeys : q.pending.values.map AdaptiveJob.key = q.pending.keys := by
    rw [Dict.values, Dict.keys, List.map_map]
    refine List.map_congr_left (fun e he => ?_)
    exact h.keyed e.1 e.2 ((Dict.get?_eq_some_iff _ _ _).mpr he)
  refine List.Nodup.of_map AdaptiveJob.key ?_
  rw [hkeys]
  exact q.pending.nodup

/-- With distinct labels, one strategy has one item and that item one job. -/
theorem Labelled.identified (h : Labelled items) (hnodup : (items.map StrategyItem.strategy).Nodup) :
    Identified items := by
  refine ⟨h, ?_, fun _ _ _ _ _ _ => mem_build⟩
  intro domains weights epsilon skipDomains skipKeys item hitem dom hdom hskip hkey
  have hvalid := build_valid items domains weights epsilon skipDomains skipKeys
  have hmatrix : (item, dom) ∈ matrix items domains :=
    List.mem_flatMap.mpr ⟨item, hitem, List.mem_map_of_mem hdom⟩
  have hmine {job : AdaptiveJob} {other : StrategyItem} (hother : other ∈ items)
      (hjob : job = .fromItem other job.domain) (hstrategy : other.strategy = item.strategy) (hd : job.domain = dom) :
      job = .fromItem item dom := by
    rw [hjob, hd, List.inj_on_of_nodup_map hnodup hother hitem hstrategy]
  obtain ⟨job, hjob⟩ := (Dict.mem_keys_iff _ _).mp (build_pending items domains weights epsilon skipDomains skipKeys
    hmatrix hskip hkey)
  have hmem := (Dict.mem_values_iff _ _).mpr ⟨_, hjob⟩
  -- the job that is pending under the key of the item can be of no other strategy
  have hpending : .fromItem item dom ∈ (build items domains weights epsilon skipDomains skipKeys).pending.values := by
    obtain ⟨other, hother, hfrom, -⟩ := mem_build hmem
    have hkeyed := hvalid.keyed _ job hjob
    have hlabel : other.label = item.label := by
      rw [hfrom] at hkeyed
      exact (Prod.mk.inj hkeyed).1
    have hstrategy : other.strategy = item.strategy := by
      by_contra hne
      exact h other hother item hitem hne hlabel
    exact hmine hother hfrom hstrategy (Prod.mk.inj hkeyed).2 ▸ hmem
  have hfilter : jobsFor (build items domains weights epsilon skipDomains skipKeys) item.strategy dom =
      (build items domains weights epsilon skipDomains skipKeys).pending.values.filter (· = .fromItem item dom) := by
    refine List.filter_congr (fun job hjob => decide_eq_decide.mpr ⟨fun hsame => ?_, fun he => ?_⟩)
    · obtain ⟨other, hother, hfrom, -⟩ := mem_build hjob
      have hstrategy : other.strategy = item.strategy := by
        rw [← hsame.1, hfrom]
        rfl
      exact hmine hother hfrom hstrategy hsame.2
    · rw [he]
      exact ⟨rfl, rfl⟩
  rw [hfilter, List.filter_eq, List.count_eq_one_of_mem (values_nodup hvalid) hpending]
  rfl

theorem identified_iff (hnodup : (items.map StrategyItem.strategy).Nodup) : Identified items ↔ Labelled items :=
  ⟨Identified.labelled, fun h => h.identified hnodup⟩

end build

/-- No two items are automatic companions of one core of udp_discord. -/
def OneAutoTtl (items : List StrategyItem) : Prop :=
  ∀ i ∈ items, ∀ j ∈ items, ∀ core s t, rowOf i = autoRow core s → rowOf j = autoRow core t → s = t

theorem toList_ttlClause (ttl : String) : (ttlClause ttl).toList = [] ∧ ttl = "" ∨
    (ttlClause ttl).toList = ":ip_autottl=".toList ++ ttl.toList ∨
    (ttlClause ttl).toList = ":ip_ttl=".toList ++ ttl.toList := by
  rw [ttlClause]
  split
  next h => exact .inl ⟨rfl, h⟩
  next =>
    split
    next => exact .inr (.inl String.toList_append)
    next => exact .inr (.inr String.toList_append)

theorem ttlClause_injective : Function.Injective ttlClause := by
  intro s t h
  have hfourth (u v : Text) : ":ip_autottl=".toList ++ u ≠ ":ip_ttl=".toList ++ v := fun h =>
    absurd (congrArg (·[4]?) h) (by simp)
  have hlist := congrArg String.toList h
  rcases toList_ttlClause s with ⟨hs, hempty⟩ | hs | hs <;>
    rcases toList_ttlClause t with ⟨ht, hempty'⟩ | ht | ht <;> rw [hs, ht] at hlist
  · exact hempty.trans hempty'.symm
  · cases hlist
  · cases hlist
  · cases hlist
  · exact String.toList_injective (List.append_cancel_left hlist)
  · exact absurd hlist (hfourth _ _)
  · cases hlist
  · exact absurd hlist.symm (hfourth _ _)
  · exact String.toList_injective (List.append_cancel_left hlist)

theorem labelled_iff {digest : String → String} (hhex : ∀ cmd, isDigest (digest cmd).toList = true) {scan : Scan}
    {sources : List Source} {items : List StrategyItem} (hmade : ∀ item ∈ items, Made digest scan sources item)
    (hfree : ∀ i ∈ items, ∀ j ∈ items, digest i.strategy = digest j.strategy → i.strategy = j.strategy) :
    Labelled items ↔ OneAutoTtl items := by
  constructor
  · intro h i hi j hj core s t hirow hjrow
    by_contra hne
    obtain ⟨hilabel, histrategy⟩ := Prod.mk.inj hirow
    obtain ⟨hjlabel, hjstrategy⟩ := Prod.mk.inj hjrow
    refine h i hi j hj (fun hsame => hne ?_) (hilabel.trans hjlabel.symm)
    rw [histrategy, hjstrategy] at hsame
    exact ttlClause_injective ((String.append_right_inj _).mp hsame)
  · intro h i hi j hj hstrategy hlabel
    rcases twins_of_label hhex (hmade i hi).told (hmade j hj).told (hfree i hi j hj) hlabel with hsame | htwins
    · exact hstrategy hsame
    · obtain ⟨core, s, t, hirow, hjrow⟩ := htwins
      obtain rfl := h i hi j hj core s t hirow hjrow
      exact hstrategy (congrArg Prod.snd (hirow.trans hjrow.symm))

section find

/-- A label of find_strategy has room for the rest of 59 characters after the domain. -/
theorem findLabel_eq_iff (domain s t : Text) : (domain ++ '|' :: s).take 60 = (domain ++ '|' :: t).take 60 ↔
    s.take (59 - domain.length) = t.take (59 - domain.length) := by
  rw [List.take_append, List.take_append, List.append_cancel_left_eq]
  rcases Nat.lt_or_ge domain.length 60 with hlt | hge
  · have hroom : 60 - domain.length = 59 - domain.length + 1 := by omega
    rw [hroom, List.take_succ_cons, List.take_succ_cons, List.cons_inj_right]
  · have hroom : 60 - domain.length = 0 ∧ 59 - domain.length = 0 := by omega
    rw [hroom.1, hroom.2, List.take_zero, List.take_zero, List.take_zero, List.take_zero]

theorem findLabelled_iff (domain : String) (preset : Text) : Labelled (findStrategyItems domain preset) ↔
    ∀ s ∈ findStrategies preset, ∀ t ∈ findStrategies preset, s ≠ t →
      s.take (59 - (strip domain.toList).length) ≠ t.take (59 - (strip domain.toList).length) := by
  simp only [Labelled, findStrategyItems, List.forall_mem_map, ne_eq, String.ofList_inj, findLabel_eq_iff]

end find

section service

/-- Two letters that a label of the probe service does not tell apart. -/
def Alike (c d : Char) : Prop := c = d ∨ (c = ' ' ∨ c = '_') ∧ (d = ' ' ∨ d = '_')

theorem alike_iff (c d : Char) :
    (if c = ' ' then '_' else c) = (if d = ' ' then '_' else d) ↔ Alike c d := by
  rw [Alike]
  by_cases hc : c = ' '
  · rw [if_pos hc]
    by_cases hd : d = ' '
    · rw [if_pos hd]
      exact iff_of_true rfl (.inl (hc.trans hd.symm))
    · rw [if_neg hd]
      refine ⟨fun h => .inr ⟨.inl hc, .inr h.symm⟩, fun h => ?_⟩
      rcases h with h | ⟨-, h⟩
      · exact absurd (h.symm.trans hc) hd
      · exact (h.resolve_left hd).symm
  · rw [if_neg hc]
    by_cases hd : d = ' '
    · rw [if_pos hd]
      refine ⟨fun h => .inr ⟨.inr h, .inl hd⟩, fun h => ?_⟩
      rcases h with h | ⟨h, -⟩
      · exact absurd (h.trans hd) hc
      · exact h.resolve_left hc
    · rw [if_neg hd]
      refine ⟨.inl, fun h => ?_⟩
      rcases h with h | ⟨h, h'⟩
      · exact h
      · exact (h.resolve_left hc).trans (h'.resolve_left hd).symm

theorem serviceLabel_eq_iff (s t : String) : ProbeService.strategyLabel s = ProbeService.strategyLabel t ↔
    List.Forall₂ Alike (s.toList.take 60) (t.toList.take 60) := by
  rw [ProbeService.strategyLabel, ProbeService.strategyLabel, String.ofList_inj, ← List.forall₂_eq_eq_eq,
    List.forall₂_map_left_iff, List.forall₂_map_right_iff]
  simp only [alike_iff]

theorem serviceLabelled_iff (request : ProbeService.ProbeRequest) : Labelled (ProbeService.items request) ↔
    ∀ s ∈ ProbeService.strategyKeys request, ∀ t ∈ ProbeService.strategyKeys request, s ≠ t →
      ¬ List.Forall₂ Alike (s.toList.take 60) (t.toList.take 60) := by
  simp only [Labelled, ProbeService.items, List.forall_mem_map, ne_eq, serviceLabel_eq_iff]

end service

/-- Labels identify the strategies of a generated list unless it has two automatic
companions of one core of udp_discord, those of find_strategy unless two begin alike
in the room that the domain leaves, and those of the probe service unless two begin
alike but for blanks and underscores. -/
theorem labels_identify (digest : String → String) (hhex : ∀ cmd, isDigest (digest cmd).toList = true) :
    (∀ (scan : Scan) (sources : List Source) (items : List StrategyItem),
      (items.map StrategyItem.strategy).Nodup → (∀ item ∈ items, Made digest scan sources item) →
      (∀ i ∈ items, ∀ j ∈ items, digest i.strategy = digest j.strategy → i.strategy = j.strategy) →
        (Identified items ↔ OneAutoTtl items)) ∧
    (∀ (domain : String) (preset : Text),
      ((findStrategyItems domain preset).map StrategyItem.strategy).Nodup →
        (Identified (findStrategyItems domain preset) ↔
          ∀ s ∈ findStrategies preset, ∀ t ∈ findStrategies preset, s ≠ t →
            s.take (59 - (strip domain.toList).length) ≠ t.take (59 - (strip domain.toList).length))) ∧
    ∀ request : ProbeService.ProbeRequest,
      Identified (ProbeService.items request) ↔
        ∀ s ∈ ProbeService.strategyKeys request, ∀ t ∈ ProbeService.strategyKeys request, s ≠ t →
          ¬ List.Forall₂ Alike (s.toList.take 60) (t.toList.take 60) := by
  refine ⟨fun scan sources items hnodup hmade hfree => ?_, fun domain preset hnodup => ?_, fun request => ?_⟩
  · exact (identified_iff hnodup).trans (labelled_iff hhex hmade hfree)
  · exact (identified_iff hnodup).trans (findLabelled_iff domain preset)
  · refine (identified_iff ?_).trans (serviceLabelled_iff request)
    rw [ProbeService.items, List.map_map]
    exact (List.map_id _).symm ▸ (ProbeService.strategyKeys_spec request).1

theorem autoRow_begins (core : String × Nat) (ttl : String) : "std_udp_".toList <+: (autoRow core ttl).1.toList := by
  delta autoRow repeatedRow
  simp only [String.toList_append, List.append_assoc]
  exact List.prefix_append _ _

/-- The digests of two lines. -/
def lineDigest (cmd : String) : String :=
  if cmd = "fake:blob=stun:repeats=6" then "8c3214" else "59af91"

def stunOrGoogle : List StrategyItem :=
  customItems lineDigest "tls12" "fast" 10 (some "fake:blob=stun:repeats=6\nfake:blob=google:repeats=6\n".toList)

theorem stunOrGoogle_eq : stunOrGoogle =
    [⟨"fake_blob=stun_repeats=6_8c3214", "fake:blob=stun:repeats=6", false, "tls12"⟩,
      ⟨"fake_blob=google_repeats=6_59af91", "fake:blob=google:repeats=6", false, "tls12"⟩] := by
  decide +kernel

theorem labels_identify_stunOrGoogle : Identified stunOrGoogle ∧ Identified (findStrategyItems "discord.com" []) ∧
    Identified (ProbeService.items ⟨["discord.com"], ["fake", "multisplit"], "tls12"⟩) := by
  have hhex (cmd : String) : isDigest (lineDigest cmd).toList = true := by
    rw [lineDigest]
    split <;> decide
  obtain ⟨hgenerated, hfind, hservice⟩ := labels_identify lineDigest hhex
  refine ⟨?_, (hfind "discord.com" [] (by decide)).mpr (by decide), (hservice _).mpr ?_⟩
  · refine (hgenerated ⟨"fast", none, []⟩
      [.custom "tls12" (some "fake:blob=stun:repeats=6\nfake:blob=google:repeats=6\n".toList)]
      stunOrGoogle ?_ ?_ ?_).mpr ?_
    · rw [stunOrGoogle_eq]
      decide
    · exact fun item hitem => ⟨_, List.mem_singleton.mpr rfl, 10, item, hitem, rfl⟩
    · rw [stunOrGoogle_eq]
      decide
    · intro i hi j _ core s _ hrow _
      have hbegin : "std_udp_".toList <+: i.label.toList :=
        (congrArg (fun row : Row => row.1.toList) hrow).symm ▸ autoRow_begins core s
      rw [stunOrGoogle_eq] at hi
      rcases List.mem_pair.mp hi with rfl | rfl <;> exact absurd hbegin (by decide)
  · have hkeys : ProbeService.strategyKeys ⟨["discord.com"], ["fake", "multisplit"], "tls12"⟩ =
        ["fake", "multisplit"] := by decide +kernel
    rw [hkeys]
    intro s hs t ht hne hsame
    have hlength := hsame.length_eq
    rcases List.mem_pair.mp hs with rfl | rfl <;> rcases List.mem_pair.mp ht with rfl | rfl
    · exact hne rfl
    · revert hlength
      decide
    · revert hlength
      decide
    · exact hne rfl

/-- The items of udp_discord at the full level. -/
def fullVoice : List StrategyItem :=
  expandFamily (fun _ => "000000") .udpDiscord (prepared none "full" "udp_voice" .udpDiscord) "full" []

theorem fullVoice_nodup : (fullVoice.map StrategyItem.strategy).Nodup := by
  rw [fullVoice, expandFamily, emitBatches_eq (by decide)]
  exact nodup_foldl_add List.nodup_nil

theorem mem_fullVoice {n : Nat} (row : Row) (h : (rowsOf (famUdpDiscord
    (prepared none "full" "udp_voice" .udpDiscord)))[n]? = some row) (hnew : ∀ before ∈ (rowsOf (famUdpDiscord
      (prepared none "full" "udp_voice" .udpDiscord))).take n, strip before.2.toList ≠ strip row.2.toList) :
    ⟨row.1, row.2, false, "udp_voice"⟩ ∈ fullVoice := by
  rw [fullVoice, expandFamily, emitBatches_eq (by decide)]
  exact mem_foldl_add_of_new h hnew

/-- Two lines of the preset flowseal-fast, in which a line break is written out. -/
def flowsealFast : List StrategyItem :=
  findStrategyItems "discord.com" ("fake:blob=stun:repeats=6:tcp_ts=-1000\\nfake:blob=max_ru:repeats=6:tcp_ts=-1000\n" ++
    "fake:blob=stun:repeats=6:tcp_ts=-1000\\nfake:blob=google:repeats=6:tcp_ts=-1000\n").toList

def probedTwice : List StrategyItem :=
  ProbeService.items ⟨["discord.com"], ["fake blob", "fake_blob"], "tls12"⟩

theorem not_identified {items : List StrategyItem} {i j : StrategyItem} (hi : i ∈ items) (hj : j ∈ items)
    (hne : i.strategy ≠ j.strategy) (hlabel : i.label = j.label) : ¬ Identified items := fun h =>
  h.labelled i hi j hj hne hlabel

theorem fullVoice_twins : ¬ Identified fullVoice := by
  refine not_identified (mem_fullVoice (n := 18) (autoRow ("discord_udp", 2) "-2,3-20") rfl ?_)
    (mem_fullVoice (n := 19) (autoRow ("discord_udp", 2) "-1,2-10") rfl ?_) (by decide +kernel) rfl
  · decide +kernel
  · decide +kernel

theorem flowsealFast_eq : flowsealFast =
    [⟨"discord.com|fake:blob=stun:repeats=6:tcp_ts=-1000\\nfake:blob",
        "fake:blob=stun:repeats=6:tcp_ts=-1000\\nfake:blob=max_ru:repeats=6:tcp_ts=-1000", false, "tls12"⟩,
      ⟨"discord.com|fake:blob=stun:repeats=6:tcp_ts=-1000\\nfake:blob",
        "fake:blob=stun:repeats=6:tcp_ts=-1000\\nfake:blob=google:repeats=6:tcp_ts=-1000", false, "tls12"⟩] := by
  decide +kernel

theorem probedTwice_eq : probedTwice =
    [⟨"fake_blob", "fake blob", false, "tls12"⟩, ⟨"fake_blob", "fake_blob", false, "tls12"⟩] := by
  decide +kernel

theorem labels_collide :
    ((fullVoice.map StrategyItem.strategy).Nodup ∧ ¬ Identified fullVoice) ∧
      ((flowsealFast.map StrategyItem.strategy).Nodup ∧ ¬ Identified flowsealFast) ∧
      (probedTwice.map StrategyItem.strategy).Nodup ∧ ¬ Identified probedTwice := by
  refine ⟨⟨fullVoice_nodup, fullVoice_twins⟩, ?_, ?_⟩
  · rw [flowsealFast_eq]
    exact ⟨by decide, not_identified List.mem_cons_self (List.mem_pair.mpr (.inr rfl)) (by decide) rfl⟩
  · rw [probedTwice_eq]
    exact ⟨by decide, not_identified List.mem_cons_self (List.mem_pair.mpr (.inr rfl)) (by decide) rfl⟩

end Blockchecks.LabelIdentity
