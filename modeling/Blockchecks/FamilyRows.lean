import Blockchecks.FamilyForms
import Blockchecks.FamilyLabels

namespace Blockchecks.FamilyRows

open FamilyAxes FamilyCodes FamilyExpanders FamilyForms FamilyFormats FamilyLabels FieldCodes TriageRecord

/-- All rows of the batches. -/
def rowsOf (batches : List Batch) : List Row := batches.flatMap Batch.rows

theorem forall_rows_nil {P : Row → Prop} : ∀ row ∈ rowsOf [], P row := fun _ h => absurd h List.not_mem_nil

theorem forall_rows_cons {P : Row → Prop} {batch : Batch} {batches : List Batch} (h : ∀ row ∈ batch.rows, P row)
    (hs : ∀ row ∈ rowsOf batches, P row) : ∀ row ∈ rowsOf (batch :: batches), P row := by
  intro row hrow
  rw [rowsOf, List.flatMap_cons] at hrow
  exact (List.mem_append.mp hrow).elim (h row) (hs row)

section coding

variable {β : Type} (c : Coding β) {core : β → Row} {axes : List β}

theorem has_core (htail : c.tail .core) {a : β} (hdom : c.dom a) : c.Has (c.core a) := by
  refine ⟨a, .core, hdom, htail, ?_⟩
  rw [Coding.rowOf, Tail.label, Tail.strategy, String.append_empty, String.append_empty]

theorem has_cores (htail : c.tail .core) (h : ∀ a ∈ axes, c.dom a ∧ c.core a = core a) :
    ∀ row ∈ axes.map core, c.Has row := by
  intro row hrow
  obtain ⟨a, ha, rfl⟩ := List.mem_map.mp hrow
  obtain ⟨hdom, hcore⟩ := h a ha
  exact hcore ▸ has_core c htail hdom

theorem has_tails {t : Tail} (ht : c.tail t) (h : ∀ a ∈ axes, c.dom a ∧ c.core a = core a) :
    ∀ row ∈ axes.map (fun a => ((core a).1 ++ t.label, (core a).2 ++ t.strategy)), c.Has row := by
  intro row hrow
  obtain ⟨a, ha, rfl⟩ := List.mem_map.mp hrow
  obtain ⟨hdom, hcore⟩ := h a ha
  refine ⟨a, t, hdom, ht, ?_⟩
  rw [Coding.rowOf, hcore]

/-- The companions of some of the cores that are told by their own marks. -/
theorem has_marks (htail : c.tail = Tail.Companion) (h : ∀ a ∈ axes, c.dom a ∧ c.core a = core a)
    {p q : β → Bool} : ∀ row ∈ ackRows core (axes.filter p) ++ md5Rows core (axes.filter q), c.Has row := by
  have hsome {p : β → Bool} : ∀ a ∈ axes.filter p, c.dom a ∧ c.core a = core a :=
    fun a ha => h a (List.mem_of_mem_filter ha)
  intro row hrow
  rcases List.mem_append.mp hrow with hrow | hrow
  · exact has_tails c (t := .ack) (htail ▸ trivial) hsome row hrow
  · exact has_tails c (t := .md5) (htail ▸ trivial) hsome row hrow

theorem has_ttls (htail : c.tail = Tail.Companion) (h : ∀ a ∈ axes, c.dom a ∧ c.core a = core a) {p : Axes}
    (hauto : ∀ t ∈ p.ttlAuto.getD [], '_' ∉ t.toList) (level : String) (known : List String) :
    ∀ row ∈ ttlRows core axes p level known, c.Has row := by
  intro row hrow
  obtain ⟨a, ha, hrow⟩ := List.mem_flatMap.mp hrow
  obtain ⟨hdom, hcore⟩ := h a (List.mem_of_mem_filter ha)
  rcases List.mem_append.mp hrow with hrow | hrow
  · obtain ⟨t, -, rfl⟩ := List.mem_map.mp hrow
    refine ⟨a, .ttl t, hdom, htail ▸ trivial, ?_⟩
    rw [Coding.rowOf, hcore, Tail.label, Tail.strategy, ← String.append_assoc]
  · obtain ⟨t, ht, rfl⟩ := List.mem_map.mp hrow
    refine ⟨a, .auto t, hdom, htail ▸ hauto t ht, ?_⟩
    have hname : (core a).1 ++ "_" ++ autoTtlName t = (core a).1 ++ Tail.label (.auto t) := by
      have htext : "_" ++ ("autottl" ++ t) = "_autottl" ++ t := by
        rw [← String.append_assoc]
        rfl
      rw [autoTtlName, Tail.label, String.append_assoc, htext]
    rw [Coding.rowOf, hcore, hname]
    rfl

end coding

/-! The fake families. -/

section fake

variable {fam : Axes}

theorem multiFake_rows (h : Within .multiFake fam) : ∀ row ∈ rowsOf (famMultiFake fam), multiFakeCoding.Has row := by
  have hpairs : ∀ p ∈ (axesFor .multiFake).blobPairs, p.1 ∈ allBlobsTcp ∧ p.2 ∈ allBlobsTcp := by decide
  have hrepeats : ∀ r ∈ (axesFor .multiFake).repeatPairs.getD [], r.1 ∈ numbers ∧ r.2 ∈ numbers := by decide
  have hp := fromFamily_within h
  refine forall_rows_cons (has_cores multiFakeCoding rfl ?_) forall_rows_nil
  rintro ⟨pair, r, fool⟩ ha
  rw [hp.keep Axes.blobPairs (fun _ => rfl), h.keep Axes.repeatPairs (fun _ => rfl)] at ha
  obtain ⟨hpair, ha⟩ := List.mem_product.mp ha
  obtain ⟨hr, hfool⟩ := List.mem_product.mp ha
  exact ⟨⟨hpairs pair hpair, hrepeats r hr, hp.foolings hfool⟩, rfl⟩

theorem tripleFake_rows (h : Within .tripleFake fam) :
    ∀ row ∈ rowsOf (famTripleFake fam), tripleFakeCoding.Has row := by
  have htriples : ∀ t ∈ (axesFor .tripleFake).triples,
      t.1 ∈ allBlobsTcp ∧ t.2.1 ∈ allBlobsTcp ∧ t.2.2 ∈ allBlobsTcp := by decide
  have hp := fromFamily_within h
  refine forall_rows_cons (has_cores tripleFakeCoding rfl ?_) forall_rows_nil
  rintro ⟨triple, r, fool⟩ ha
  rw [hp.keep Axes.triples (fun _ => rfl)] at ha
  obtain ⟨htriple, ha⟩ := List.mem_product.mp ha
  obtain ⟨hr, hfool⟩ := List.mem_product.mp ha
  exact ⟨⟨htriples triple htriple, hp.repeats hr, hp.foolings hfool⟩, rfl⟩

theorem fakeMultidisorder_rows (h : Within .fakeMultidisorder fam) :
    ∀ row ∈ rowsOf (famFakeMultidisorder fam), fakeMultidisorderCoding.Has row := by
  have hpositions : (axesFor .fakeMultidisorder).positions ⊆ allPositions := by decide
  have hp := fromFamily_within h
  refine forall_rows_cons (has_cores fakeMultidisorderCoding rfl ?_) forall_rows_nil
  rintro ⟨blob, pos, r, fool⟩ ha
  obtain ⟨hblob, ha⟩ := List.mem_product.mp ha
  obtain ⟨hpos, ha⟩ := List.mem_product.mp ha
  obtain ⟨hr, hfool⟩ := List.mem_product.mp ha
  exact ⟨⟨hp.blobs hblob, hpositions (hp.positions hpos), hp.repeats hr, hp.foolings hfool⟩, rfl⟩

theorem fakeHostfake_rows (h : Within .fakeHostfake fam) :
    ∀ row ∈ rowsOf (famFakeHostfake fam), fakeHostfakeCoding.Has row := by
  have hp := fromFamilyFooled_within h
  refine forall_rows_cons (has_cores fakeHostfakeCoding rfl ?_) forall_rows_nil
  rintro ⟨blob, r, fool, hf⟩ ha
  rw [hp.keep Axes.hfVariants (fun _ => rfl)] at ha
  obtain ⟨hblob, ha⟩ := List.mem_product.mp ha
  obtain ⟨hr, ha⟩ := List.mem_product.mp ha
  obtain ⟨hfool, hhf⟩ := List.mem_product.mp ha
  exact ⟨⟨hp.blobs hblob, hp.repeats hr, hp.foolings hfool, hhf⟩, rfl⟩

theorem hostfake_rows (h : Within .hostfake fam) (level : String) (known : List String) :
    ∀ row ∈ rowsOf (famHostfake fam level known), HasHost row ∨ hostfakeCoding.Has row := by
  have hp := fromFamilyFooled_within h
  have haxes : ∀ a ∈ (fromFamilyFooled fam).foolings ×ˢ (fromFamilyFooled fam).variants,
      hostfakeCoding.dom a ∧ hostfakeCoding.core a = hostfakeCore a := by
    rintro ⟨fool, variant⟩ ha
    rw [hp.keep Axes.variants (fun _ => rfl)] at ha
    obtain ⟨hfool, hvariant⟩ := List.mem_product.mp ha
    exact ⟨⟨hp.foolings hfool, hvariant⟩, rfl⟩
  refine forall_rows_cons ?_ (forall_rows_cons ?_ (forall_rows_cons ?_ forall_rows_nil))
  · intro row hrow
    obtain ⟨⟨host, fool⟩, ha, rfl⟩ := List.mem_map.mp hrow
    refine .inl ⟨host, fool, ?_, rfl⟩
    have hfool := (List.mem_product.mp ha).2
    split at hfool
    next => exact (List.mem_singleton.mp hfool) ▸ by decide
    next => exact hp.foolings (List.mem_of_mem_filter hfool)
  · exact fun row hrow => .inr (has_cores hostfakeCoding trivial haxes row hrow)
  · intro row hrow
    rcases List.mem_append.mp hrow with hrow | hrow
    · exact .inr (has_marks hostfakeCoding rfl haxes row hrow)
    · exact .inr (has_ttls hostfakeCoding rfl haxes hp.auto level known row hrow)

/-- The foolings that the fast scan adds for IPv6 are none of its own. -/
theorem fake_rows (digest : String → String) (h : Within .fake fam) (hextra : fam.ipv6Extra ⊆ fastFoolingsIpv6)
    (hfresh : ∀ fool ∈ (fromFamily fam).foolings, fool ∉ fam.ipv6Extra) (level : String) (known : List String) :
    ∀ row ∈ rowsOf (famFake digest fam level known), Told digest fam.ipv6Extra
      ((requiredFoolings (fromFamily fam).foolings).headD "tcp_ts=-1000") row := by
  generalize hfool : (requiredFoolings (fromFamily fam).foolings).headD "tcp_ts=-1000" = first
  have hp := fromFamily_within h
  have hblobs : (axesFor .fake).blobs = allBlobsTcp := rfl
  have haxes : ∀ a ∈ (fromFamily fam).blobs ×ˢ (fromFamily fam).repeats ×ˢ (fromFamily fam).foolings,
      (fakeCoding fam.ipv6Extra first).dom a ∧ (fakeCoding fam.ipv6Extra first).core a = fakeCore a := by
    rintro ⟨blob, r, fool⟩ ha
    obtain ⟨hblob, ha⟩ := List.mem_product.mp ha
    obtain ⟨hr, hfool⟩ := List.mem_product.mp ha
    have hnot := hfresh fool hfool
    exact ⟨⟨hp.blobs hblob, hp.repeats hr, hp.foolings hfool, fun hmem => absurd hmem hnot⟩, if_neg hnot⟩
  have hform {row : Row} (hrow : (fakeCoding fam.ipv6Extra first).Has row) : Told digest fam.ipv6Extra first row :=
    .inl ⟨.fake, hrow⟩
  refine forall_rows_cons ?_ (forall_rows_cons ?_ (forall_rows_cons ?_ forall_rows_nil))
  · exact fun row hrow => hform (has_cores _ trivial haxes row hrow)
  · intro row hrow
    simp only [hfool] at hrow
    split at hrow
    next => exact absurd hrow List.not_mem_nil
    next =>
      obtain ⟨⟨ip6, blob⟩, ha, rfl⟩ := List.mem_map.mp hrow
      obtain ⟨hip6, hblob⟩ := List.mem_product.mp ha
      have hfast : ∀ fool ∈ fastFoolingsIpv6, fool ∈ allFools ∧ fool ≠ "" := by decide
      have hnamed : ∀ blob ∈ ["stun", "google"], blob ∈ allBlobsTcp := by decide
      have hsix : 6 ∈ numbers := by decide
      obtain ⟨hall, hne⟩ := hfast ip6 (hextra hip6)
      have hdom : (fakeCoding fam.ipv6Extra first).dom (blob, 6, ip6) :=
        ⟨hnamed blob hblob, hsix, hall, fun _ => ⟨rfl, hne⟩⟩
      have hcore : (fakeCoding fam.ipv6Extra first).core (blob, 6, ip6) = fakeIp6Row first (ip6, blob) := if_pos hip6
      exact hform (hcore ▸ has_core _ trivial hdom)
  · intro row hrow
    rcases List.mem_append.mp hrow with hrow | hrow
    · rcases List.mem_append.mp hrow with hrow | hrow
      · exact hform (has_marks _ rfl haxes row hrow)
      · exact hform (has_ttls _ rfl haxes hp.auto level known row hrow)
    · split at hrow
      next =>
        obtain ⟨a, -, rfl⟩ := List.mem_map.mp hrow
        exact .inr ⟨_, rfl⟩
      next => exact absurd hrow List.not_mem_nil

theorem rstFake_rows (digest : String → String) (h : Within .rstFake fam) (extra : List String) (fool : String) :
    ∀ row ∈ rowsOf (famRstFake digest fam), Told digest extra fool row := by
  refine forall_rows_cons (fun row hrow => ?_) (forall_rows_cons (fun row hrow => ?_) forall_rows_nil)
  · rw [h.keep Axes.mods (fun _ => rfl)] at hrow
    exact .inl ⟨.rstMod, has_cores rstModCoding rfl (fun a ha => ⟨ha, rfl⟩) row hrow⟩
  · obtain ⟨a, -, rfl⟩ := List.mem_map.mp hrow
    exact .inr ⟨_, rfl⟩

theorem synack_rows (h : Within .synack fam) (hown : Own .synack fam) :
    ∀ row ∈ rowsOf (famSynack fam), synackCoding.Has row := by
  have hmodes : ∀ mode ∈ (axesFor .synack).modes.eraseDups, synackModeRow mode ∈ synackRows := by decide
  have hfools : ∀ fool ∈ (fromFamily fam).foolings, fool = "" := by
    intro fool hfool
    have hsub : (fromFamily fam).foolings ⊆ [""] := by
      rw [fromFamily]
      dsimp only
      split
      next => exact List.Subset.refl _
      next => exact hown.foolings
    exact List.mem_singleton.mp (hsub hfool)
  have hhas {row : Row} (hrow : row ∈ synackRows) : synackCoding.Has row := has_core synackCoding rfl hrow
  refine forall_rows_cons (fun row hrow => ?_) (forall_rows_cons (fun row hrow => ?_)
    (forall_rows_cons (fun row hrow => ?_) forall_rows_nil))
  · rw [h.keep Axes.modes (fun _ => rfl)] at hrow
    obtain ⟨mode, hmode, rfl⟩ := List.mem_map.mp hrow
    exact hhas (hmodes mode hmode)
  · rw [List.mem_singleton.mp hrow]
    exact hhas (by decide)
  · obtain ⟨fool, hfool, rfl⟩ := List.mem_map.mp hrow
    rw [hfools fool hfool]
    exact hhas (by decide)

end fake

/-! The split families. -/

section split

variable {fam : Axes}

theorem mem_skipNull {blob : String} {blobs : List String} (h : blob ∈ skipNull blobs) : blob ∈ blobs :=
  List.mem_of_mem_filter h

theorem multisplit_rows (h : Within .multisplit fam) (level : String) :
    ∀ row ∈ rowsOf (famMultisplit fam level), multisplitCoding.Has row ∨ padCoding.Has row := by
  have hpositions : (axesFor .multisplit).positions ⊆ allPositions := by decide
  have hseqovl : (axesFor .multisplit).seqovl ⊆ numbers := by decide
  have hp := fromFamily_within h
  have haxes : ∀ a ∈ (fromFamily fam).positions ×ˢ (fromFamily fam).seqovl ×ˢ (fromFamily fam).foolings ×ˢ
      skipNull (fromFamily fam).seqovlBlobs, multisplitCoding.dom a ∧ multisplitCoding.core a = multisplitCore a := by
    rintro ⟨pos, seqovl, fool, blob⟩ ha
    rw [hp.keep Axes.seqovl (fun _ => rfl), hp.keep Axes.seqovlBlobs (fun _ => rfl)] at ha
    obtain ⟨hpos, ha⟩ := List.mem_product.mp ha
    obtain ⟨hs, ha⟩ := List.mem_product.mp ha
    obtain ⟨hfool, hblob⟩ := List.mem_product.mp ha
    exact ⟨⟨hpositions (hp.positions hpos), hseqovl hs, hp.foolings hfool, mem_skipNull hblob⟩, rfl⟩
  refine forall_rows_cons (fun row hrow => .inl ?_) (forall_rows_cons (fun row hrow => .inl ?_)
    (forall_rows_cons (fun row hrow => .inr ?_) forall_rows_nil))
  · exact has_cores multisplitCoding trivial haxes row hrow
  · exact has_ttls multisplitCoding rfl haxes hp.auto level [] row hrow
  · split at hrow
    next => exact has_cores padCoding rfl (fun a ha => ⟨ha, rfl⟩) row hrow
    next => exact absurd hrow List.not_mem_nil

theorem multidisorder_rows (h : Within .multidisorder fam) :
    ∀ row ∈ rowsOf (famMultidisorder fam), multidisorderCoding.Has row := by
  have hpositions : (axesFor .multidisorder).positions ⊆ allPositions := by decide
  have hplain : ∀ blob ∈ (axesFor .multidisorder).seqovlBlobs, (none, blob) ∈ seqovlBlobs := by decide
  have hseqovl : ∀ blob ∈ (axesFor .multidisorder).seqovlBlobs, ∀ s ∈ (axesFor .multidisorder).seqovl,
      (some s, blob) ∈ seqovlBlobs := by decide
  have hp := fromFamily_within h
  refine forall_rows_cons (fun row hrow => ?_) (forall_rows_cons (fun row hrow => ?_) forall_rows_nil)
  · obtain ⟨⟨pos, fool, blob⟩, ha, rfl⟩ := List.mem_map.mp hrow
    rw [hp.keep Axes.seqovlBlobs (fun _ => rfl)] at ha
    obtain ⟨hpos, ha⟩ := List.mem_product.mp ha
    obtain ⟨hfool, hblob⟩ := List.mem_product.mp ha
    have hdom : multidisorderCoding.dom (pos, fool, none, blob) :=
      ⟨hpositions (hp.positions hpos), hp.foolings hfool, hplain blob hblob⟩
    exact has_core multidisorderCoding rfl hdom
  · obtain ⟨⟨pos, fool, blob, seqovl⟩, ha, rfl⟩ := List.mem_map.mp hrow
    replace ha := List.mem_of_mem_filter ha
    rw [hp.keep Axes.seqovlBlobs (fun _ => rfl), hp.keep Axes.seqovl (fun _ => rfl)] at ha
    obtain ⟨hpos, ha⟩ := List.mem_product.mp ha
    obtain ⟨hfool, ha⟩ := List.mem_product.mp ha
    obtain ⟨hblob, hs⟩ := List.mem_product.mp ha
    have hdom : multidisorderCoding.dom (pos, fool, some seqovl, blob) :=
      ⟨hpositions (hp.positions hpos), hp.foolings hfool, hseqovl blob hblob seqovl hs⟩
    exact has_core multidisorderCoding rfl hdom

theorem faked_rows {f : Family} (hpositions : (axesFor f).positions ⊆ allPositions)
    (hblobs : (axesFor f).patternBlobs ⊆ allBlobsTcp) (h : Within f fam) (fn pre : String) :
    ∀ row ∈ rowsOf (famFakedCore fam fn pre), (fakedCoding fn pre).Has row := by
  have hp := fromFamilyFooled_within h
  have haxes : ∀ a ∈ (fromFamilyFooled fam).positions ×ˢ skipNull (fromFamilyFooled fam).patternBlobs ×ˢ
      (fromFamilyFooled fam).foolings ×ˢ (fromFamilyFooled fam).repeats,
      (fakedCoding fn pre).dom a ∧ (fakedCoding fn pre).core a = fakedCore fn pre a := by
    rintro ⟨pos, blob, fool, r⟩ ha
    rw [hp.keep Axes.patternBlobs (fun _ => rfl)] at ha
    obtain ⟨hpos, ha⟩ := List.mem_product.mp ha
    obtain ⟨hblob, ha⟩ := List.mem_product.mp ha
    obtain ⟨hfool, hr⟩ := List.mem_product.mp ha
    exact ⟨⟨hpositions (hp.positions hpos), hblobs (mem_skipNull hblob), hp.foolings hfool, hp.repeats hr⟩, rfl⟩
  exact forall_rows_cons (has_cores _ trivial haxes) (forall_rows_cons (has_marks _ rfl haxes) forall_rows_nil)

theorem fakeMultisplit_rows (h : Within .fakeMultisplit fam) :
    ∀ row ∈ rowsOf (famFakeMultisplit fam), fakeMultisplitCoding.Has row := by
  have hpairs : ∀ p ∈ (axesFor .fakeMultisplit).blobPairs, p.1 ∈ allBlobsTcp ∧ p.2 ∈ allBlobsTcp := by decide
  have hpositions : (axesFor .fakeMultisplit).positions ⊆ allPositions := by decide
  have hseqovl : (axesFor .fakeMultisplit).seqovl ⊆ numbers := by decide
  have hp := fromFamily_within h
  refine forall_rows_cons (has_cores fakeMultisplitCoding rfl ?_) forall_rows_nil
  rintro ⟨pair, pos, seqovl, r, fool⟩ ha
  rw [hp.keep Axes.blobPairs (fun _ => rfl), hp.keep Axes.seqovl (fun _ => rfl)] at ha
  obtain ⟨hpair, ha⟩ := List.mem_product.mp ha
  obtain ⟨hpos, ha⟩ := List.mem_product.mp ha
  obtain ⟨hs, ha⟩ := List.mem_product.mp ha
  obtain ⟨hr, hfool⟩ := List.mem_product.mp ha
  exact ⟨⟨hpairs pair (List.mem_of_mem_filter hpair), hpositions (hp.positions hpos), hseqovl hs, hp.repeats hr,
    hp.foolings hfool⟩, rfl⟩

theorem fakeMultisplitHostfake_rows (h : Within .fakeMultisplitHostfake fam) :
    ∀ row ∈ rowsOf (famFakeMultisplitHostfake fam), fakeMultisplitHostfakeCoding.Has row := by
  have hpairs : ∀ p ∈ (axesFor .fakeMultisplitHostfake).blobPairs, p.1 ∈ allBlobsTcp ∧ p.2 ∈ allBlobsTcp := by
    decide
  have hpositions : (axesFor .fakeMultisplitHostfake).positions ⊆ allPositions := by decide
  have hseqovl : (axesFor .fakeMultisplitHostfake).seqovl ⊆ numbers := by decide
  have hp := fromFamilyFooled_within h
  refine forall_rows_cons (has_cores fakeMultisplitHostfakeCoding rfl ?_) forall_rows_nil
  rintro ⟨pair, pos, seqovl, r, fool, host⟩ ha
  rw [hp.keep Axes.blobPairs (fun _ => rfl), hp.keep Axes.seqovl (fun _ => rfl),
    hp.keep Axes.hfHosts (fun _ => rfl)] at ha
  obtain ⟨hpair, ha⟩ := List.mem_product.mp ha
  obtain ⟨hpos, ha⟩ := List.mem_product.mp ha
  obtain ⟨hs, ha⟩ := List.mem_product.mp ha
  obtain ⟨hr, ha⟩ := List.mem_product.mp ha
  obtain ⟨hfool, hhost⟩ := List.mem_product.mp ha
  exact ⟨⟨hpairs pair (List.mem_of_mem_filter hpair), hpositions (hp.positions hpos), hseqovl hs, hp.repeats hr,
    hp.foolings hfool, hhost⟩, rfl⟩

theorem fakeFakedsplit_rows (h : Within .fakeFakedsplit fam) :
    ∀ row ∈ rowsOf (famFakeFakedsplit fam), fakeFakedsplitCoding.Has row := by
  have hpositions : (axesFor .fakeFakedsplit).positions ⊆ allPositions := by decide
  have hp := fromFamilyFooled_within h
  refine forall_rows_cons (has_cores fakeFakedsplitCoding rfl ?_) forall_rows_nil
  rintro ⟨blob, pattern, pos, r, fool⟩ ha
  rw [hp.keep Axes.patternBlobs (fun _ => rfl)] at ha
  obtain ⟨hblob, ha⟩ := List.mem_product.mp ha
  obtain ⟨hpattern, ha⟩ := List.mem_product.mp ha
  obtain ⟨hpos, ha⟩ := List.mem_product.mp ha
  obtain ⟨hr, hfool⟩ := List.mem_product.mp ha
  exact ⟨⟨hp.blobs hblob, hpattern, hpositions (hp.positions hpos), hp.repeats hr, hp.foolings hfool⟩, rfl⟩

theorem tcpIpfrag_rows (h : Within .tcpIpfrag fam) :
    ∀ row ∈ rowsOf (famTcpIpfrag fam), tcpIpfragCoding.Has row ∨ tcpFakeIpfragCoding.Has row := by
  have hblobs : ∀ blob ∈ (axesFor .tcpIpfrag).comboBlobs.filter (· ≠ ""), blob ∈ comboBlobs := by decide
  have hp := fromFamily_within h
  refine forall_rows_cons (fun row hrow => .inl ?_) (forall_rows_cons (fun row hrow => .inr ?_) forall_rows_nil)
  · refine has_cores tcpIpfragCoding rfl ?_ row hrow
    rintro ⟨pos, disorder, nxt⟩ ha
    rw [h.keep Axes.disorder (fun _ => rfl), h.keep Axes.ipfragNext (fun _ => rfl)] at ha
    obtain ⟨hpos, ha⟩ := List.mem_product.mp ha
    exact ⟨List.mem_product.mpr ⟨hp.positions hpos, ha⟩, rfl⟩
  · refine has_cores tcpFakeIpfragCoding rfl ?_ row hrow
    rintro ⟨pos, blob, r, disorder⟩ ha
    rw [h.keep Axes.disorder (fun _ => rfl), h.keep Axes.comboBlobs (fun _ => rfl),
      if_neg (fun h => absurd h.1 (by decide))] at ha
    obtain ⟨hpos, ha⟩ := List.mem_product.mp ha
    obtain ⟨hblob, ha⟩ := List.mem_product.mp ha
    obtain ⟨hr, hdisorder⟩ := List.mem_product.mp ha
    exact ⟨⟨hp.positions hpos, hblobs blob hblob, hp.repeats hr, List.mem_singleton.mp hdisorder⟩, rfl⟩

theorem quicIpfrag_rows (h : Within .quicIpfrag fam) :
    ∀ row ∈ rowsOf (famQuicIpfrag fam), quicIpfragCoding.Has row ∨ quicFakeIpfragCoding.Has row := by
  have hblobs : (axesFor .quicIpfrag).comboBlobs.filter (· ≠ "") = [] := by decide
  have hp := fromFamily_within h
  refine forall_rows_cons (fun row hrow => .inl ?_) (forall_rows_cons (fun row hrow => .inr ?_) forall_rows_nil)
  · refine has_cores quicIpfragCoding rfl ?_ row hrow
    rintro ⟨pos, disorder, nxt⟩ ha
    rw [h.keep Axes.disorder (fun _ => rfl), h.keep Axes.ipfragNext (fun _ => rfl)] at ha
    obtain ⟨hpos, ha⟩ := List.mem_product.mp ha
    exact ⟨List.mem_product.mpr ⟨hp.positions hpos, ha⟩, rfl⟩
  · refine has_cores quicFakeIpfragCoding rfl ?_ row hrow
    rintro ⟨pos, blob, r, disorder⟩ ha
    rw [h.keep Axes.disorder (fun _ => rfl), h.keep Axes.comboBlobs (fun _ => rfl), if_pos ⟨rfl, hblobs⟩] at ha
    obtain ⟨hpos, ha⟩ := List.mem_product.mp ha
    obtain ⟨hblob, ha⟩ := List.mem_product.mp ha
    obtain ⟨hr, hdisorder⟩ := List.mem_product.mp ha
    exact ⟨⟨hp.positions hpos, List.mem_singleton.mp hblob, hp.repeats hr, List.mem_singleton.mp hdisorder⟩, rfl⟩

end split

/-! The tamper families. -/

section tamper

variable {fam : Axes}

theorem syndata_rows (h : Within .syndata fam) (hown : Own .syndata fam) :
    ∀ row ∈ rowsOf (famSyndata fam), syndataCoding.Has row := by
  have hp := fromFamily_within h
  have hhas {a : Option (String × String × Bool)} (ha : a ∈ syndataAxes) : syndataCoding.Has (syndataCore a) :=
    has_core syndataCoding rfl ha
  refine forall_rows_cons (fun row hrow => ?_) (forall_rows_cons (fun row hrow => ?_) forall_rows_nil)
  · obtain ⟨⟨blob, tmod, plus⟩, ha, rfl⟩ := List.mem_map.mp hrow
    rw [h.keep Axes.plusSplit (fun _ => rfl)] at ha
    obtain ⟨hblob, ha⟩ := List.mem_product.mp ha
    obtain ⟨htmod, hplus⟩ := List.mem_product.mp ha
    have htmod : tmod ∈ (axesFor .syndata).tlsMods := hown.tlsMods ▸ htmod
    have haxes := List.mem_product.mpr ⟨hp.blobs hblob, List.mem_product.mpr ⟨htmod, hplus⟩⟩
    exact hhas (List.mem_cons_of_mem none (List.mem_map_of_mem haxes))
  · split at hrow
    next =>
      rw [List.mem_singleton.mp hrow]
      exact hhas List.mem_cons_self
    next => exact absurd hrow List.not_mem_nil

/-- The repeats of a family of its own, which are not left out. -/
theorem repeats_eq {f : Family} (hown : Own f fam) (hne : (axesFor f).repeats ≠ []) :
    (fromFamily fam).repeats = (axesFor f).repeats := by
  rw [fromFamily]
  dsimp only
  rw [hown.repeats, if_neg hne]

theorem tcpseg_rows (h : Within .tcpseg fam) (hown : Own .tcpseg fam) :
    ∀ row ∈ rowsOf (famTcpseg fam), tcpsegCoding.Has row := by
  have hp := fromFamily_within h
  refine forall_rows_cons (has_cores tcpsegCoding rfl ?_) forall_rows_nil
  rintro ⟨pos, r⟩ ha
  rw [repeats_eq hown (by decide)] at ha
  obtain ⟨hpos, hr⟩ := List.mem_product.mp ha
  rw [h.keep Axes.ipId (fun _ => rfl)]
  exact ⟨List.mem_product.mpr ⟨hp.positions hpos, hr⟩, rfl⟩

theorem oob_rows (h : Within .oob fam) : ∀ row ∈ rowsOf (famOob fam), oobCoding.Has row := by
  refine forall_rows_cons (has_cores oobCoding rfl ?_) forall_rows_nil
  intro urp hurp
  rw [h.keep Axes.urps (fun _ => rfl)] at hurp
  rw [h.keep Axes.inRange (fun _ => rfl)]
  exact ⟨hurp, rfl⟩

theorem genevaFool_rows (h : Within .genevaFool fam) (hown : Own .genevaFool fam) :
    ∀ row ∈ rowsOf (famGenevaFool fam), genevaFoolCoding.Has row := by
  refine forall_rows_cons (has_cores genevaFoolCoding rfl ?_) forall_rows_nil
  rintro ⟨fool, r⟩ ha
  rw [repeats_eq hown (by decide), (fromFamily_within h).keep Axes.fools (fun _ => rfl)] at ha
  exact ⟨ha, rfl⟩

theorem wssize_rows (h : Within .wssize fam) : ∀ row ∈ rowsOf (famWssize fam), wssizeCoding.Has row := by
  have hrows : ∀ row ∈ rowsOf (famWssize (axesFor .wssize)), row ∈ wssizeRows := by decide
  have hfam : famWssize fam = famWssize (axesFor .wssize) := by
    rw [famWssize, famWssize, h.keep Axes.sizes (fun _ => rfl), h.keep Axes.combos (fun _ => rfl)]
  intro row hrow
  exact has_core wssizeCoding rfl (hrows row (hfam ▸ hrow))

theorem httpSimple_rows (h : Within .httpSimple fam) :
    ∀ row ∈ rowsOf (famHttpSimple fam), httpSimpleCoding.Has row := by
  refine forall_rows_cons (has_cores httpSimpleCoding rfl ?_) forall_rows_nil
  intro variant hvariant
  rw [h.keep Axes.variants (fun _ => rfl)] at hvariant
  exact ⟨hvariant, rfl⟩

theorem fooled_rows {f : Family} {pre : String} {blobs some : List String} (hpre : pre.toList ≠ [])
    (hblobs : Closed '_' (blobs.map String.toList)) (h : Within f fam) (hsome : some ⊆ blobs) :
    ∀ row ∈ (some ×ˢ (fromFamily fam).repeats ×ˢ (fromFamily fam).foolings).map (fooledRow pre),
      (fooledCoding pre blobs hpre hblobs).Has row := by
  have hp := fromFamily_within h
  refine has_cores (fooledCoding pre blobs hpre hblobs) rfl ?_
  rintro ⟨blob, r, fool⟩ ha
  obtain ⟨hblob, ha⟩ := List.mem_product.mp ha
  obtain ⟨hr, hfool⟩ := List.mem_product.mp ha
  exact ⟨⟨hsome hblob, hp.repeats hr, hp.foolings hfool⟩, rfl⟩

theorem httpFake_rows (h : Within .httpFake fam) : ∀ row ∈ rowsOf (famHttpFake fam), httpFakeCoding.Has row :=
  forall_rows_cons (fooled_rows _ _ h (fromFamily_within h).blobs) forall_rows_nil

theorem httpTlsDual_rows (h : Within .httpTlsDual fam) :
    ∀ row ∈ rowsOf (famHttpTlsDual fam), httpTlsDualCoding.Has row := by
  have hblobs : fam.httpBlobs ⊆ (axesFor .httpTlsDual).httpBlobs := by
    rw [h.keep Axes.httpBlobs (fun _ => rfl)]
    exact List.Subset.refl _
  exact forall_rows_cons (fooled_rows _ _ h hblobs) forall_rows_nil

theorem quicFake_rows (h : Within .quicFake fam) :
    ∀ row ∈ rowsOf (famQuicFake fam), quicFakeCoding.Has row ∨ quicIp6Coding.Has row := by
  refine forall_rows_cons (fun row hrow => .inl ?_) (forall_rows_cons (fun row hrow => .inr ?_) forall_rows_nil)
  · exact fooled_rows _ _ h (fromFamily_within h).blobs row hrow
  · split at hrow
    next => exact has_cores quicIp6Coding rfl (fun fool hfool => ⟨h.ip6Fools hfool, rfl⟩) row hrow
    next => exact absurd hrow List.not_mem_nil

theorem repeated_rows {f : Family} {pre : String} {blobs some : List String} (tail : Tail → Prop)
    (htail : tail .core) (hpre : pre.toList ≠ []) (hblobs : Closed '_' (blobs.map String.toList)) (h : Within f fam)
    (hsome : some ⊆ blobs) : ∀ row ∈ (some ×ˢ (fromFamily fam).repeats).map (repeatedRow pre),
      (repeatedCoding pre blobs tail hpre hblobs).Has row := by
  refine has_cores (repeatedCoding pre blobs tail hpre hblobs) htail ?_
  rintro ⟨blob, r⟩ ha
  obtain ⟨hblob, hr⟩ := List.mem_product.mp ha
  exact ⟨⟨hsome hblob, (fromFamily_within h).repeats hr⟩, rfl⟩

theorem quicGv_rows (h : Within .quicGv fam) : ∀ row ∈ rowsOf (famQuicGv fam), quicGvCoding.Has row :=
  forall_rows_cons (repeated_rows Tail.IsCore rfl _ _ h (fromFamily_within h).blobs) forall_rows_nil

theorem udpQuic_rows (h : Within .udpQuic fam) : ∀ row ∈ rowsOf (famUdpQuic fam), udpQuicCoding.Has row :=
  forall_rows_cons (repeated_rows Tail.IsCore rfl _ _ h (fromFamily_within h).blobs) forall_rows_nil

theorem udpDiscord_rows (h : Within .udpDiscord fam) :
    ∀ row ∈ rowsOf (famUdpDiscord fam), discordCoding.Has row := by
  have hdefault : "discord_udp" ∈ (axesFor .udpDiscord).blobs := by decide
  have hp := fromFamily_within h
  have haxes : ∀ a ∈ discordBlobs (fromFamily fam) ×ˢ (fromFamily fam).repeats,
      discordCoding.dom a ∧ discordCoding.core a = repeatedRow "std_udp_" a := by
    rintro ⟨blob, r⟩ ha
    obtain ⟨hblob, hr⟩ := List.mem_product.mp ha
    refine ⟨⟨?_, hp.repeats hr⟩, rfl⟩
    rw [discordBlobs] at hblob
    split at hblob
    next => exact List.mem_singleton.mp hblob ▸ hdefault
    next => exact hp.blobs hblob
  refine forall_rows_cons (has_cores discordCoding trivial haxes) (forall_rows_cons (fun row hrow => ?_) forall_rows_nil)
  obtain ⟨a, ha, hrow⟩ := List.mem_flatMap.mp hrow
  obtain ⟨hdom, -⟩ := haxes a ha
  rcases List.mem_append.mp hrow with hrow | hrow
  · obtain ⟨t, -, rfl⟩ := List.mem_map.mp hrow
    refine ⟨a, .ttl t, hdom, trivial, ?_⟩
    rw [Coding.rowOf, Tail.label, Tail.strategy, ← String.append_assoc]
    rfl
  · obtain ⟨t, -, rfl⟩ := List.mem_map.mp hrow
    refine ⟨a, .voice t, hdom, trivial, ?_⟩
    rw [Coding.rowOf, Tail.label, Tail.strategy, String.append_assoc]
    rfl

theorem udpGame_rows (h : Within .udpGame fam) : ∀ row ∈ rowsOf (famUdpGame fam), udpGameCoding.Has row := by
  have hne : (axesFor .udpGame).outRange ≠ [] := by decide
  have hp := fromFamily_within h
  refine forall_rows_cons (has_cores udpGameCoding rfl ?_) forall_rows_nil
  rintro ⟨blob, r, range⟩ ha
  rw [hp.keep Axes.outRange (fun _ => rfl), if_neg hne] at ha
  obtain ⟨hblob, ha⟩ := List.mem_product.mp ha
  obtain ⟨hr, hrange⟩ := List.mem_product.mp ha
  exact ⟨⟨hp.blobs hblob, hp.repeats hr, hrange⟩, rfl⟩

theorem udpMultiblob_rows (h : Within .udpMultiblob fam) (hown : Own .udpMultiblob fam) :
    ∀ row ∈ rowsOf (famUdpMultiblob fam), udpMultiblobCoding.Has row := by
  refine forall_rows_cons (has_cores udpMultiblobCoding rfl ?_) forall_rows_nil
  rintro ⟨pair, r⟩ ha
  rw [repeats_eq hown (by decide), (fromFamily_within h).keep Axes.profiles (fun _ => rfl)] at ha
  exact ⟨ha, rfl⟩

end tamper

section scan

variable (triage : Option Profile) (level : String)

/-- The foolings that a scan level adds to fake. -/
def scanExtra : List String := (scanMutator level .fake (axesFor .fake)).ipv6Extra

/-- The fooling that those rows have besides, which no protocol changes. -/
def scanFool : String := (requiredFoolings (fromFamily (prepared triage level "" .fake)).foolings).headD "tcp_ts=-1000"

theorem prepared_extra (protocol : String) : (prepared triage level protocol .fake).ipv6Extra = scanExtra level := by
  cases triage <;> rfl

theorem prepared_fool (protocol : String) :
    (requiredFoolings (fromFamily (prepared triage level protocol .fake)).foolings).headD "tcp_ts=-1000" =
      scanFool triage level := by
  cases triage <;> rfl

theorem prepared_foolings (protocol : String) : (prepared triage level protocol .fake).foolings ⊆
    (scanMutator level .fake (axesFor .fake)).foolings := by
  cases triage with
  | none => exact List.Subset.refl _
  | some triage => exact List.filter_subset_self _

/-- The fast scan adds foolings that are not on its list, and no other scan adds
any. -/
theorem scanExtra_fresh : scanExtra level ⊆ fastFoolingsIpv6 ∧
    ∀ fool ∈ (scanMutator level .fake (axesFor .fake)).foolings, fool ∉ scanExtra level := by
  delta scanExtra scanMutator
  by_cases hfull : level = "full"
  · rw [if_pos hfull]
    exact ⟨List.nil_subset _, fun _ _ => List.not_mem_nil⟩
  · rw [if_neg hfull]
    by_cases hfast : level = "fast"
    · rw [if_pos hfast]
      exact ⟨List.Subset.refl _, by decide⟩
    · rw [if_neg hfast]
      exact ⟨List.nil_subset _, fun _ _ => List.not_mem_nil⟩

theorem scanExtra_nonempty : "" ∉ scanExtra level := fun h =>
  absurd ((scanExtra_fresh level).1 h) (by decide)

theorem preparedFake_rows (digest : String → String) (protocol : String) (known : List String) :
    ∀ row ∈ rowsOf (famFake digest (prepared triage level protocol .fake) level known),
      Told digest (scanExtra level) (scanFool triage level) row := by
  have hrows := fake_rows digest (prepared_within triage level protocol .fake)
    (prepared_extra triage level protocol ▸ (scanExtra_fresh level).1) ?_ level known
  · rwa [prepared_extra, prepared_fool] at hrows
  · intro fool hfool
    rw [prepared_extra]
    rw [fromFamily] at hfool
    dsimp only at hfool
    split at hfool
    next => exact List.mem_singleton.mp hfool ▸ scanExtra_nonempty level
    next => exact (scanExtra_fresh level).2 fool (prepared_foolings triage level protocol hfool)

end scan

end Blockchecks.FamilyRows
