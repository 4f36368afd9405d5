import Blockchecks.FamilyRegistry
import Blockchecks.ScanWeights
import Mathlib.Data.Finset.Basic

namespace Blockchecks.WeightChanges

open BlobFilter FamilyRegistry OrderedDict ScanWeights StrategyText TriageProfiles

def triageFamilySeed : ℚ := 2

def triageFoolSeed : ℚ := 4 / 5

def triageBlobSeed : ℚ := 1 / 2

def triagePosSeed : ℚ := 2 / 5

def splitPosTraits : List (String × String) :=
  [("first_byte", "pos:1"), ("sni_marker", "pos:sniext+1"), ("seqovl", "fool:seqovl")]

/-- A new key gets the seed, an existing one keeps its weight, both capped. -/
def seed (default : ℚ) (d : Dict String ℚ) (key : String) : Dict String ℚ :=
  d.set key (min ((d.get? key).getD default) maxWeight)

def foolTrait (token : String) : String := "fool:" ++ token

def viableTrait (fool : String) : String := foolTrait (String.ofList (fool.toList.takeWhile (· ≠ '=')))

def splitTrait (mode : String) : String := (splitPosTraits.lookup mode).getD ("pos:" ++ mode)

def seedTraits (profile : TriageProfile) (d : Dict String ℚ) : Dict String ℚ :=
  let d := ((deadFoolingTokens profile).map foolTrait).foldl (fun d key => d.set key (1 / 10)) d
  let d := (profile.viableFoolings.map viableTrait).foldl (seed triageFoolSeed) d
  if profile.splitMode = "" then d else seed triagePosSeed d (splitTrait profile.splitMode)

def seedBlobs (profile : TriageProfile) (d : Dict String ℚ) : Dict String ℚ :=
  profile.viableBlobs.foldl
    (fun d blob => (aliasesForClass blob).foldl (seed triageBlobSeed) (seed triageBlobSeed d blob)) d

def seedFromTriage (w : Weights) : Option TriageProfile → Weights
  | none => w
  | some profile =>
      { w with
        family := (familiesForProfile profile).foldl (seed triageFamilySeed) w.family
        blob := seedBlobs profile w.blob
        trait := seedTraits profile w.trait }

/-- The weights together with the strategies whose provider boost is already spent. -/
structure Boosted where
  weights : Weights
  providerBoosted : Finset String := ∅

def boostProviderOnce (b : Boosted) (strategyKey family : String) (blobs traits : List String) : Bool × Boosted :=
  if strategyKey ∈ b.providerBoosted then (false, b)
  else (true, ⟨b.weights.boostPass family blobs traits, insert strategyKey b.providerBoosted⟩)

def toRows (w : Weights) : List (String × ℚ) :=
  w.family.entries.map (fun e => ("family:" ++ e.1, e.2)) ++ w.blob.entries.map (fun e => ("blob:" ++ e.1, e.2)) ++
    w.trait.entries.map (fun e => ("trait:" ++ e.1, e.2))

def fromRow (w : Weights) (row : String × ℚ) : Weights :=
  let key := row.1.toList
  if startsWith key "family:" then { w with family := w.family.set (String.ofList (key.drop 7)) row.2 }
  else if startsWith key "blob:" then { w with blob := w.blob.set (String.ofList (key.drop 5)) row.2 }
  else if startsWith key "trait:" then { w with trait := w.trait.set (String.ofList (key.drop 6)) row.2 }
  else w

def fromRows (rows : List (String × ℚ)) : Weights := rows.foldl fromRow {}

structure Pass where
  family : String
  blobs : List String
  traits : List String

def boost (w : Weights) (pass : Pass) : Weights := w.boostPass pass.family pass.blobs pass.traits

inductive Change where
  | pass (pass : Pass)
  | provider (strategyKey : String) (pass : Pass)
  | triage (profile : Option TriageProfile)

def change (b : Boosted) : Change → Boosted
  | .pass pass => { b with weights := boost b.weights pass }
  | .provider strategyKey pass => (boostProviderOnce b strategyKey pass.family pass.blobs pass.traits).2
  | .triage profile => { b with weights := seedFromTriage b.weights profile }

/-- The maps agree as dictionaries: insertion order is not compared. -/
structure SameMaps (w w' : Weights) : Prop where
  family : ∀ k, w.family.get? k = w'.family.get? k
  blob : ∀ k, w.blob.get? k = w'.blob.get? k
  trait : ∀ k, w.trait.get? k = w'.trait.get? k

def CapHolds (d : Dict String ℚ) : Prop := ∀ k v, d.get? k = some v → v ≤ maxWeight

structure Capped (w : Weights) : Prop where
  family : CapHolds w.family
  blob : CapHolds w.blob
  trait : CapHolds w.trait

end Blockchecks.WeightChanges
