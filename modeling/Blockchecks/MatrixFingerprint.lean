import Blockchecks.JoinedText
import Blockchecks.StrategyText
import Mathlib.Data.List.Sort
import Mathlib.Data.String.Basic
import Std.Data.String.ToInt

namespace Blockchecks.MatrixFingerprint

open JoinedText StrategyText

def sorted (strategies : List String) : List String := strategies.insertionSort (· ≤ ·)

def fingerprintParts (tcpStrategies udpStrategies : List String) (scanLevel : String) (maxCount : Int) :
    List String :=
  sorted tcpStrategies ++ ["|"] ++ sorted udpStrategies ++
    ["level=" ++ scanLevel, "max=" ++ toString maxCount]

/-- The parameter is the hash, of which the first half of the hex digits is left. -/
def matrixFingerprint (hash : String → String) (tcpStrategies udpStrategies : List String)
    (scanLevel : String) (maxCount : Int) : String :=
  hash ("\n".intercalate (fingerprintParts tcpStrategies udpStrategies scanLevel maxCount))

/-- What a session starts from, of its context and its arguments. -/
structure Campaign where
  tcpItems : List StrategyItem
  udpItems : List StrategyItem
  scanLevel : String := "fast"
  max : Int := 100
  protocol : String := "tls12"

namespace Campaign

variable (c : Campaign)

def tcpStrategies : List String := c.tcpItems.map StrategyItem.strategy

def udpStrategies : List String := c.udpItems.map StrategyItem.strategy

def parts : List String := fingerprintParts c.tcpStrategies c.udpStrategies c.scanLevel c.max

def text : String := "\n".intercalate c.parts

def buildMatrixFingerprint (hash : String → String) : String :=
  matrixFingerprint hash c.tcpStrategies c.udpStrategies c.scanLevel c.max

end Campaign

structure SameKind (c d : Campaign) : Prop where
  tcp : c.tcpStrategies.Perm d.tcpStrategies
  udp : c.udpStrategies.Perm d.udpStrategies
  scanLevel : c.scanLevel = d.scanLevel
  max : c.max = d.max
  protocol : c.protocol = d.protocol

def lineBreaks (text : String) : Nat := text.toList.count '\n'

/-- The texts are broken at the same places, and for the same protocol. -/
structure SameBreaks (c d : Campaign) : Prop where
  tcp : (sorted c.tcpStrategies).map lineBreaks = (sorted d.tcpStrategies).map lineBreaks
  udp : (sorted c.udpStrategies).map lineBreaks = (sorted d.udpStrategies).map lineBreaks
  scanLevel : lineBreaks c.scanLevel = lineBreaks d.scanLevel
  protocol : c.protocol = d.protocol

instance (c d : Campaign) : Decidable (SameBreaks c d) :=
  decidable_of_iff ((sorted c.tcpStrategies).map lineBreaks = (sorted d.tcpStrategies).map lineBreaks ∧
      (sorted c.udpStrategies).map lineBreaks = (sorted d.udpStrategies).map lineBreaks ∧
      lineBreaks c.scanLevel = lineBreaks d.scanLevel ∧ c.protocol = d.protocol)
    ⟨fun ⟨htcp, hudp, hlevel, hprotocol⟩ => ⟨htcp, hudp, hlevel, hprotocol⟩,
      fun h => ⟨h.tcp, h.udp, h.scanLevel, h.protocol⟩⟩

theorem sorted_eq_iff {xs ys : List String} : sorted xs = sorted ys ↔ xs.Perm ys := by
  have hx : (sorted xs).Perm xs := List.perm_insertionSort _ xs
  have hy : (sorted ys).Perm ys := List.perm_insertionSort _ ys
  constructor
  · intro h
    exact (hx.symm.trans (List.Perm.of_eq h)).trans hy
  · intro h
    exact List.Perm.eq_of_pairwise' (List.pairwise_insertionSort _ xs) (List.pairwise_insertionSort _ ys)
      ((hx.trans h).trans hy.symm)

theorem lineBreaks_append (a b : String) : lineBreaks (a ++ b) = lineBreaks a + lineBreaks b := by
  rw [lineBreaks, String.toList_append, List.count_append]
  rfl

theorem lineBreaks_toString (n : Int) : lineBreaks (toString n) = 0 := by
  have hdigits (m : Nat) : lineBreaks m.repr = 0 := by
    rw [lineBreaks, Nat.toList_repr]
    refine List.count_eq_zero_of_not_mem (fun h => ?_)
    exact absurd (Nat.isDigit_of_mem_toDigits (by decide) (by decide) h) (by decide)
  cases n with
  | ofNat m => exact hdigits m
  | negSucc m =>
      have happend := lineBreaks_append "-" m.succ.repr
      rw [hdigits] at happend
      exact happend

variable {c d : Campaign}

theorem SameKind.sameBreaks (h : SameKind c d) : SameBreaks c d :=
  ⟨congrArg (List.map lineBreaks) (sorted_eq_iff.mpr h.tcp), congrArg (List.map lineBreaks) (sorted_eq_iff.mpr h.udp),
    congrArg lineBreaks h.scanLevel, h.protocol⟩

theorem SameBreaks.parts (h : SameBreaks c d) : c.parts.map lineBreaks = d.parts.map lineBreaks := by
  rw [Campaign.parts, Campaign.parts, fingerprintParts, fingerprintParts]
  simp only [List.map_append, List.map_cons, List.map_nil, lineBreaks_append, lineBreaks_toString]
  rw [h.tcp, h.udp, h.scanLevel]

theorem parts_eq_of_text (htext : c.text = d.text) (h : SameBreaks c d) : c.parts = d.parts := by
  have hlists := congrArg String.toList htext
  rw [Campaign.text, Campaign.text, String.toList_intercalate, String.toList_intercalate] at hlists
  have hcounts : (c.parts.map String.toList).map (List.count '\n') =
      (d.parts.map String.toList).map (List.count '\n') := by
    rw [List.map_map, List.map_map]
    exact h.parts
  exact List.map_injective_iff.mpr (fun _ _ => String.toList_injective) (intercalate_inj hlists hcounts)

theorem append_cancel {a b pre : String} (h : pre ++ a = pre ++ b) : a = b := by
  have hlists := congrArg String.toList h
  rw [String.toList_append, String.toList_append] at hlists
  exact String.toList_injective (List.append_cancel_left hlists)

theorem sameKind_of_parts (hparts : c.parts = d.parts) (h : SameBreaks c d) : SameKind c d := by
  rw [Campaign.parts, Campaign.parts, fingerprintParts, fingerprintParts, List.append_assoc, List.append_assoc,
    List.append_assoc, List.append_assoc] at hparts
  have htcp := congrArg List.length h.tcp
  have hudp := congrArg List.length h.udp
  rw [List.length_map, List.length_map] at htcp hudp
  obtain ⟨htcpEq, hrest⟩ := List.append_inj hparts htcp
  obtain ⟨_, hrest⟩ := List.append_inj hrest rfl
  obtain ⟨hudpEq, hrest⟩ := List.append_inj hrest hudp
  obtain ⟨hlevel, hmax⟩ := List.cons.inj hrest
  refine ⟨sorted_eq_iff.mp htcpEq, sorted_eq_iff.mp hudpEq, ?_, ?_, h.protocol⟩
  · exact append_cancel hlevel
  · exact Int.repr_injective (append_cancel (List.cons.inj hmax).1)

/-- Of campaigns with one text those are of one kind that break it at the same
places. -/
theorem sameKind_iff (htext : c.text = d.text) : SameKind c d ↔ SameBreaks c d :=
  ⟨SameKind.sameBreaks, fun h => sameKind_of_parts (parts_eq_of_text htext h) h⟩

end Blockchecks.MatrixFingerprint
