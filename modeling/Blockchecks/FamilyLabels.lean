import Blockchecks.FamilyFormats
import Blockchecks.PairResume

namespace Blockchecks.FamilyLabels

open FamilyAxes FamilyCodes FamilyExpanders FamilyFormats FieldCodes TriageRecord

/-- What no mutator and no triage changes in an axis table. -/
def frame (fam : Axes) : Axes := { fam with
  blobs := []
  repeats := []
  foolings := []
  ttlStatic := []
  ttlAuto := none
  tlsMods := []
  positions := []
  hosts := []
  ip6Fools := []
  ipv6Extra := [] }

/-- The axes of a family at any scan level and under any triage. -/
structure Within (f : Family) (fam : Axes) : Prop where
  blobs : fam.blobs ⊆ (axesFor f).blobs
  repeats : fam.repeats ⊆ numbers
  foolings : fam.foolings ⊆ allFools
  positions : fam.positions ⊆ (axesFor f).positions
  auto : ∀ t ∈ fam.ttlAuto.getD [], '_' ∉ t.toList
  ip6Fools : fam.ip6Fools ⊆ allFoolingsIpv6
  frame : frame fam = frame (axesFor f)

theorem Within.keep {γ : Type} {f : Family} {fam : Axes} (h : Within f fam) (field : Axes → γ)
    (hfield : ∀ fam, field (FamilyLabels.frame fam) = field fam) : field fam = field (axesFor f) := by
  rw [← hfield fam, h.frame, hfield]

theorem axesFor_within (f : Family) : Within f (axesFor f) := by
  refine ⟨List.Subset.refl _, ?_, ?_, List.Subset.refl _, ?_, ?_, rfl⟩
  · cases f <;> decide
  · cases f <;> decide
  · cases f <;> decide
  · cases f <;> decide

theorem subset_eraseDups {l l' : List String} (h : l ⊆ l') : l.eraseDups ⊆ l' :=
  fun _ hx => h (List.mem_eraseDups.mp hx)

theorem scanMutator_within (level : String) (f : Family) : Within f (scanMutator level f (axesFor f)) := by
  have h := axesFor_within f
  have hfools : (axesFor f).foolings ++ allFoolingsTcp ⊆ allFools :=
    List.append_subset.mpr ⟨h.foolings, by decide⟩
  have htcp : Within f (mutFullTcpFools (axesFor f)) := { h with foolings := subset_eraseDups hfools }
  delta scanMutator
  by_cases hfull : level = "full"
  · rw [if_pos hfull]
    cases f with
    | fake => exact { h with
        repeats := by decide
        foolings := by decide }
    | hostfake | fakedsplit | fakeddisorder | fakeHostfake | httpFake => exact htcp
    | quicFake => exact { h with
        foolings := by decide
        ip6Fools := List.Subset.refl _ }
    | udpDiscord => exact { h with
        repeats := by decide
        auto := by decide }
    | _ => exact h
  · rw [if_neg hfull]
    by_cases hfast : level = "fast"
    · rw [if_pos hfast]
      cases f with
      | fake => exact { h with frame := rfl }
      | _ => exact h
    · rw [if_neg hfast]
      exact h

theorem filter_subset {p : String → Bool} {l l' : List String} (h : l ⊆ l') : l.filter p ⊆ l' :=
  fun _ hx => h (List.mem_of_mem_filter hx)

theorem underscore_notMem_int (z : Int) : '_' ∉ (toString z).toList := by
  have hdigit (n : Nat) : '_' ∉ (Nat.repr n).toList := fun h =>
    absurd (PairResume.isDigit_of_mem_repr h) (by decide)
  rw [PairResume.int_toList]
  cases z with
  | ofNat n => exact hdigit n
  | negSucc n => exact List.not_mem_cons_of_ne_of_not_mem (by decide) (hdigit (n + 1))

theorem filterBlobAliases_subset (aliases : List String) (triage : Profile) (protocol : String) :
    BlobFilter.filterBlobAliases aliases triage.toTriageProfile protocol ⊆ aliases := by
  rw [BlobFilter.filterBlobAliases]
  split
  · exact List.Subset.refl _
  · exact List.filter_subset_self _

theorem filterSplitPositions_subset (positions : List String) (triage : Profile) (level : String) :
    FamilyRegistry.filterSplitPositions positions (some triage.toTriageProfile) level ⊆ positions := by
  simp only [FamilyRegistry.filterSplitPositions]
  split
  · exact List.Subset.refl _
  · exact List.filter_subset_self _

theorem applyTriageAxes_within {f : Family} {fam : Axes} (h : Within f fam) (triage : Profile)
    (level protocol : String) : Within f (applyTriageAxes fam triage level protocol) where
  blobs := List.Subset.trans (filterBlobAliases_subset fam.blobs triage protocol) h.blobs
  repeats := h.repeats
  foolings := filter_subset h.foolings
  positions := List.Subset.trans (filterSplitPositions_subset fam.positions triage level) h.positions
  auto t ht := by
    simp only [applyTriageAxes] at ht
    split at ht
    next auto delta hauto _ =>
      rcases List.mem_cons.mp (List.mem_eraseDups.mp ht) with rfl | ht
      · exact underscore_notMem_int delta
      · exact h.auto t (hauto ▸ ht)
    next => exact h.auto t ht
  ip6Fools := h.ip6Fools
  frame := h.frame

theorem prepared_within (triage : Option Profile) (level protocol : String) (f : Family) :
    Within f (prepared triage level protocol f) := by
  cases triage with
  | none => exact scanMutator_within level f
  | some triage => exact applyTriageAxes_within (scanMutator_within level f) triage level protocol

theorem fromFamily_within {f : Family} {fam : Axes} (h : Within f fam) : Within f (fromFamily fam) where
  blobs := h.blobs
  repeats := by
    rw [fromFamily]
    dsimp only
    split
    · decide
    · exact h.repeats
  foolings := by
    rw [fromFamily]
    dsimp only
    split
    · decide
    · exact h.foolings
  positions := h.positions
  auto := h.auto
  ip6Fools := h.ip6Fools
  frame := h.frame

theorem fromFamilyFooled_within {f : Family} {fam : Axes} (h : Within f fam) :
    Within f (fromFamilyFooled fam) :=
  { fromFamily_within h with foolings := filter_subset h.foolings }

/-- The families that a scan level changes. -/
def mutated : List Family :=
  [.fake, .hostfake, .fakedsplit, .fakeddisorder, .fakeHostfake, .httpFake, .quicFake, .udpDiscord]

/-- The axes of the other families, which a triage narrows only. -/
structure Own (f : Family) (fam : Axes) : Prop where
  repeats : fam.repeats = (axesFor f).repeats
  tlsMods : fam.tlsMods = (axesFor f).tlsMods
  foolings : fam.foolings ⊆ (axesFor f).foolings

theorem scanMutator_own {f : Family} (hf : f ∉ mutated) (level : String) (fam : Axes) :
    scanMutator level f fam = fam := by
  delta scanMutator
  cases f <;> first | exact absurd (by decide) hf | simp

theorem prepared_own {f : Family} (hf : f ∉ mutated) (triage : Option Profile) (level protocol : String) :
    Own f (prepared triage level protocol f) := by
  cases triage with
  | none =>
      rw [prepared, scanMutator_own hf]
      exact ⟨rfl, rfl, List.Subset.refl _⟩
  | some triage =>
      rw [prepared, scanMutator_own hf]
      exact ⟨rfl, rfl, List.filter_subset_self _⟩

end Blockchecks.FamilyLabels
