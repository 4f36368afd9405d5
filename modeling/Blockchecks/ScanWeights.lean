import Blockchecks.OrderedDict
import Mathlib.Algebra.Order.Ring.Unbundled.Rat

namespace Blockchecks.ScanWeights

open OrderedDict

def maxWeight : ℚ := 64

/-- Strategy genetics. Python floats are read as rationals. -/
structure Weights where
  family : Dict String ℚ := .empty
  blob : Dict String ℚ := .empty
  trait : Dict String ℚ := .empty
  familyBoost : ℚ := 1
  blobBoost : ℚ := 1 / 2
  traitBoost : ℚ := 2 / 5

namespace Weights

def get (w : Weights) (family : String) (blobs traits : List String) : ℚ :=
  let score := (w.family.get? family).getD 1
  let score := blobs.foldl (fun s b => s + (w.blob.get? b).getD 0) score
  traits.foldl (fun s t => s + (w.trait.get? t).getD 0) score

def bump (d : Dict String ℚ) (default boost : ℚ) (key : String) : Dict String ℚ :=
  d.set key (min ((d.get? key).getD default + boost) maxWeight)

def boostPass (w : Weights) (family : String) (blobs traits : List String) : Weights :=
  { w with
    family := bump w.family 1 w.familyBoost family
    blob := blobs.foldl (fun d b => bump d 0 w.blobBoost b) w.blob
    trait := traits.foldl (fun d t => bump d 0 w.traitBoost t) w.trait }

end Weights

end Blockchecks.ScanWeights
