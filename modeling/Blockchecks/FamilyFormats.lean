import Blockchecks.FamilyCodes

namespace Blockchecks.FamilyFormats

open FamilyAxes FamilyCodes FamilyExpanders FieldCodes

theorem closed_of_notMem {mark : Char} {values : List Text} (h : ∀ v ∈ values, mark ∉ v) :
    Closed mark values := by
  intro v _ w hw hbegin
  exact h w hw (hbegin.subset (List.mem_append_right v List.mem_cons_self))

theorem foolCol_ending : ∀ e ∈ endings [foolCol], '_' ∈ e ∧ isDigest (lastPart '_' e) = false := by decide

theorem numberCol_ending : ∀ e ∈ endings [numberCol "_r"], '_' ∈ e ∧ isDigest (lastPart '_' e) = false := by
  decide

/-- Rows that a list of axes tells, each with one value behind a fixed text. -/
def listCoding {β : Type} (core : β → Row) (axes : List β) (text : String) (value : β → Text)
    (htext : text.toList ≠ [] ∧ '_' ∈ text.toList)
    (hplain : ∀ a ∈ axes, '\n' ∉ value a ∧ isDigest (lastPart '_' (text.toList ++ value a)) = false)
    (hlabel : ∀ a ∈ axes, (core a).1.toList = text.toList ++ value a)
    (hvalue : ∀ a ∈ axes, ∀ b ∈ axes, value a = value b → a = b) : Coding β where
  core := core
  dom := (· ∈ axes)
  tail := Tail.IsCore
  mark := '\n'
  columns := [⟨text.toList, axes.map value⟩]
  values a := [value a]
  separated := by
    refine ⟨htext.1, closed_of_notMem ?_, trivial⟩
    intro v hv
    obtain ⟨a, ha, rfl⟩ := List.mem_map.mp hv
    exact (hplain a ha).1
  fits a ha := .cons (List.mem_map_of_mem ha) .nil
  label a ha := by rw [hlabel a ha, render, render, List.append_nil]; simp
  strategy a b ha hb h := by rw [hvalue a ha b hb (List.cons.inj h).1]
  marked t ht := by
    rw [show t = Tail.core from ht]
    exact marked_nil
  ending e he := by
    obtain ⟨v, hv, rfl⟩ := List.mem_map.mp he
    obtain ⟨a, ha, rfl⟩ := List.mem_map.mp hv
    exact ⟨List.mem_append_left _ htext.2, (hplain a ha).2⟩

/-- The positions of all split families. -/
def allPositions : List String := allSplitPositions ++ ["method+2"]

theorem closed_blobs : Closed '_' (allBlobsTcp.map String.toList) := by decide

theorem closed_blobs_plus : Closed '+' (allBlobsTcp.map String.toList) := by decide

theorem closed_positions : Closed '_' (allPositions.map String.toList) := by decide

/-- A fake of three axes behind the prefix of its family. -/
def fooledCoding (pre : String) (blobs : List String) (hpre : pre.toList ≠ [])
    (hblobs : Closed '_' (blobs.map String.toList)) : Coding (String × Nat × String) where
  core := fooledRow pre
  dom a := a.1 ∈ blobs ∧ a.2.1 ∈ numbers ∧ a.2.2 ∈ allFools
  tail := Tail.IsCore
  mark := '_'
  columns := [col pre blobs, numberCol "_r", foolCol]
  values a := [a.1.toList, digits a.2.1, (foolName a.2.2).toList]
  separated := ⟨hpre, hblobs, by decide, closed_numbers, by decide, closed_fools, trivial⟩
  fits _ ha := .cons (mem_col ha.1) (.cons (mem_numberCol ha.2.1) (.cons (mem_foolCol ha.2.2) .nil))
  label a _ := by
    delta fooledRow
    simp only [render, col, numberCol, foolCol, String.toList_append, toList_number, List.append_assoc,
      List.append_nil]
  strategy a b ha hb h := by
    simp only [List.cons.injEq, and_true] at h
    have hblob := String.toList_injective h.1
    have hfool := foolName_injective ha.2.2 hb.2.2 h.2.2
    rw [show a = b from Prod.ext hblob (Prod.ext (digits_injective h.2.1) hfool)]
  marked t _ := t.marked
  ending := foolCol_ending

/-- The cores of fake and its rows for IPv6, which have a fooling of the extra
ones and the first one of the family. -/
def fakeCoding (extra : List String) (fool : String) : Coding (String × Nat × String) where
  core a := if a.2.2 ∈ extra then fakeIp6Row fool (a.2.2, a.1) else fakeCore a
  dom a := a.1 ∈ allBlobsTcp ∧ a.2.1 ∈ numbers ∧ a.2.2 ∈ allFools ∧
    (a.2.2 ∈ extra → a.2.1 = 6 ∧ a.2.2 ≠ "")
  tail := Tail.Companion
  mark := '_'
  columns := [col "std_fake_" allBlobsTcp, numberCol "_r", foolCol]
  values a := [a.1.toList, digits a.2.1, (foolName a.2.2).toList]
  separated := ⟨by decide, closed_blobs, by decide, closed_numbers, by decide, closed_fools, trivial⟩
  fits _ ha := .cons (mem_col ha.1) (.cons (mem_numberCol ha.2.1) (.cons (mem_foolCol ha.2.2.1) .nil))
  label a ha := by
    split
    next hextra =>
      obtain ⟨hr, hfool⟩ := ha.2.2.2 hextra
      delta fakeIp6Row
      simp only [render, col, numberCol, foolCol, digits, hr, foolName, if_neg hfool, String.toList_append,
        List.append_assoc, List.append_nil]
      rfl
    next =>
      delta fakeCore
      simp only [render, col, numberCol, foolCol, String.toList_append, toList_number, List.append_assoc,
        List.append_nil]
  strategy a b ha hb h := by
    simp only [List.cons.injEq, and_true] at h
    have hblob := String.toList_injective h.1
    have hfool := foolName_injective ha.2.2.1 hb.2.2.1 h.2.2
    rw [show a = b from Prod.ext hblob (Prod.ext (digits_injective h.2.1) hfool)]
  marked t _ := t.marked
  ending := foolCol_ending

def hostfakeCoding : Coding (String × String) where
  core := hostfakeCore
  dom a := a.1 ∈ allFools ∧ a.2 ∈ (axesFor .hostfake).variants
  tail := Tail.Companion
  mark := '_'
  columns := [col "std_hf_" (axesFor .hostfake).variants, foolCol]
  values a := [a.2.toList, (foolName a.1).toList]
  separated := ⟨by decide, by decide, by decide, closed_fools, trivial⟩
  fits _ ha := .cons (mem_col ha.2) (.cons (mem_foolCol ha.1) .nil)
  label a _ := by
    delta hostfakeCore
    simp only [render, col, foolCol, String.toList_append, List.append_assoc, List.append_nil]
  strategy a b ha hb h := by
    simp only [List.cons.injEq, and_true] at h
    rw [show a = b from Prod.ext (foolName_injective ha.1 hb.1 h.2) (String.toList_injective h.1)]
  marked t _ := t.marked
  ending := foolCol_ending

def multisplitCoding : Coding (String × Nat × String × String) where
  core := multisplitCore
  dom a := a.1 ∈ allPositions ∧ a.2.1 ∈ numbers ∧ a.2.2.1 ∈ allFools ∧ a.2.2.2 ∈ allBlobsTcp
  tail := Tail.Companion
  mark := '_'
  columns := [col "std_split_" allPositions, numberCol "_s", col "_" allBlobsTcp, foolCol]
  values a := [a.1.toList, digits a.2.1, a.2.2.2.toList, (foolName a.2.2.1).toList]
  separated := ⟨by decide, closed_positions, by decide, closed_numbers, by decide, closed_blobs, by decide,
    closed_fools, trivial⟩
  fits _ ha := .cons (mem_col ha.1) (.cons (mem_numberCol ha.2.1) (.cons (mem_col ha.2.2.2)
    (.cons (mem_foolCol ha.2.2.1) .nil)))
  label a _ := by
    delta multisplitCore
    simp only [render, col, numberCol, foolCol, String.toList_append, toList_number, List.append_assoc,
      List.append_nil]
  strategy a b ha hb h := by
    simp only [List.cons.injEq, and_true] at h
    have hpos := String.toList_injective h.1
    have hblob := String.toList_injective h.2.2.1
    have hfool := foolName_injective ha.2.2.1 hb.2.2.1 h.2.2.2
    rw [show a = b from Prod.ext hpos (Prod.ext (digits_injective h.2.1) (Prod.ext hfool hblob))]
  marked t _ := t.marked
  ending := foolCol_ending

/-- What stands for the seqovl, if a row has one, and the blob. -/
def seqovlBlob : Option Nat × String → Text
  | (none, blob) => blob.toList
  | (some seqovl, blob) => 's' :: digits seqovl ++ '_' :: blob.toList

def seqovlBlobs : List (Option Nat × String) := [none, some 664, some 681] ×ˢ allBlobsTcp

def multidisorderCoding : Coding (String × String × Option Nat × String) where
  core a := match a.2.2.1 with
    | none => multidisorderRow (a.1, a.2.1, a.2.2.2)
    | some seqovl => multidisorderSeqovlRow (a.1, a.2.1, a.2.2.2, seqovl)
  dom a := a.1 ∈ allPositions ∧ a.2.1 ∈ allFools ∧ a.2.2 ∈ seqovlBlobs
  tail := Tail.IsCore
  mark := '_'
  columns := [col "std_mdis_" allPositions, ⟨"_".toList, seqovlBlobs.map seqovlBlob⟩, foolCol]
  values a := [a.1.toList, seqovlBlob a.2.2, (foolName a.2.1).toList]
  separated := ⟨by decide, closed_positions, by decide, by decide, by decide, closed_fools, trivial⟩
  fits _ ha := .cons (mem_col ha.1) (.cons (List.mem_map_of_mem ha.2.2) (.cons (mem_foolCol ha.2.1) .nil))
  label a _ := by
    obtain ⟨pos, fool, seqovl, blob⟩ := a
    cases seqovl with
    | none =>
        delta multidisorderRow
        simp only [render, col, foolCol, seqovlBlob, String.toList_append, List.append_assoc, List.append_nil]
    | some seqovl =>
        delta multidisorderSeqovlRow
        simp only [render, col, foolCol, seqovlBlob, String.toList_append, toList_number, List.append_assoc,
          List.append_nil]
        rfl
  strategy a b ha hb h := by
    simp only [List.cons.injEq, and_true] at h
    have hpos := String.toList_injective h.1
    have hinj : ∀ x ∈ seqovlBlobs, ∀ y ∈ seqovlBlobs, seqovlBlob x = seqovlBlob y → x = y := by decide
    have hfool := foolName_injective ha.2.1 hb.2.1 h.2.2
    have hblob := hinj a.2.2 ha.2.2 b.2.2 hb.2.2 h.2.1
    rw [show a = b from Prod.ext hpos (Prod.ext hfool hblob)]
  marked t _ := t.marked
  ending := foolCol_ending

def fakedCoding (fn pre : String) : Coding (String × String × String × Nat) where
  core := fakedCore fn pre
  dom a := a.1 ∈ allPositions ∧ a.2.1 ∈ allBlobsTcp ∧ a.2.2.1 ∈ allFools ∧ a.2.2.2 ∈ numbers
  tail := Tail.Companion
  mark := '_'
  columns := [⟨pre.toList ++ "_p".toList, allPositions.map String.toList⟩, col "_" allBlobsTcp, numberCol "_r",
    foolCol]
  values a := [a.1.toList, a.2.1.toList, digits a.2.2.2, (foolName a.2.2.1).toList]
  separated := ⟨List.append_ne_nil_of_right_ne_nil _ (by decide), closed_positions, by decide, closed_blobs,
    by decide, closed_numbers, by decide, closed_fools, trivial⟩
  fits _ ha := .cons (List.mem_map_of_mem ha.1) (.cons (mem_col ha.2.1) (.cons (mem_numberCol ha.2.2.2)
    (.cons (mem_foolCol ha.2.2.1) .nil)))
  label a _ := by
    delta fakedCore
    simp only [render, col, numberCol, foolCol, String.toList_append, toList_number, List.append_assoc,
      List.append_nil]
  strategy a b ha hb h := by
    simp only [List.cons.injEq, and_true] at h
    have hpos := String.toList_injective h.1
    have hblob := String.toList_injective h.2.1
    have hfool := foolName_injective ha.2.2.1 hb.2.2.1 h.2.2.2
    rw [show a = b from Prod.ext hpos (Prod.ext hblob (Prod.ext hfool (digits_injective h.2.2.1)))]
  marked t _ := t.marked
  ending := foolCol_ending

def multiFakeCoding : Coding ((String × String) × (Nat × Nat) × String) where
  core := multiFakeRow
  dom a := (a.1.1 ∈ allBlobsTcp ∧ a.1.2 ∈ allBlobsTcp) ∧ (a.2.1.1 ∈ numbers ∧ a.2.1.2 ∈ numbers) ∧
    a.2.2 ∈ allFools
  tail := Tail.IsCore
  mark := '_'
  columns := [col "std_multi_" allBlobsTcp, col "+" allBlobsTcp, numberCol "_r", numberCol "+", foolCol]
  values a := [a.1.1.toList, a.1.2.toList, digits a.2.1.1, digits a.2.1.2, (foolName a.2.2).toList]
  separated := ⟨by decide, closed_blobs_plus, by decide, closed_blobs, by decide, closed_numbers_plus, by decide,
    closed_numbers, by decide, closed_fools, trivial⟩
  fits _ ha := .cons (mem_col ha.1.1) (.cons (mem_col ha.1.2) (.cons (mem_numberCol ha.2.1.1)
    (.cons (mem_numberCol ha.2.1.2) (.cons (mem_foolCol ha.2.2) .nil))))
  label a _ := by
    delta multiFakeRow
    simp only [render, col, numberCol, foolCol, String.toList_append, toList_number, List.append_assoc,
      List.append_nil]
  strategy a b ha hb h := by
    simp only [List.cons.injEq, and_true] at h
    have hpair := Prod.ext (String.toList_injective h.1) (String.toList_injective h.2.1)
    have hrepeats := Prod.ext (digits_injective h.2.2.1) (digits_injective h.2.2.2.1)
    have hfool := foolName_injective ha.2.2 hb.2.2 h.2.2.2.2
    rw [show a = b from Prod.ext hpair (Prod.ext hrepeats hfool)]
  marked t _ := t.marked
  ending := foolCol_ending

def tripleFakeCoding : Coding ((String × String × String) × Nat × String) where
  core := tripleFakeRow
  dom a := (a.1.1 ∈ allBlobsTcp ∧ a.1.2.1 ∈ allBlobsTcp ∧ a.1.2.2 ∈ allBlobsTcp) ∧ a.2.1 ∈ numbers ∧
    a.2.2 ∈ allFools
  tail := Tail.IsCore
  mark := '_'
  columns := [col "std_triple_" allBlobsTcp, col "+" allBlobsTcp, col "+" allBlobsTcp, numberCol "_r", foolCol]
  values a := [a.1.1.toList, a.1.2.1.toList, a.1.2.2.toList, digits a.2.1, (foolName a.2.2).toList]
  separated := ⟨by decide, closed_blobs_plus, by decide, closed_blobs_plus, by decide, closed_blobs, by decide,
    closed_numbers, by decide, closed_fools, trivial⟩
  fits _ ha := .cons (mem_col ha.1.1) (.cons (mem_col ha.1.2.1) (.cons (mem_col ha.1.2.2)
    (.cons (mem_numberCol ha.2.1) (.cons (mem_foolCol ha.2.2) .nil))))
  label a _ := by
    delta tripleFakeRow
    simp only [render, col, numberCol, foolCol, String.toList_append, toList_number, List.append_assoc,
      List.append_nil]
  strategy a b ha hb h := by
    simp only [List.cons.injEq, and_true] at h
    have hrest := Prod.ext (String.toList_injective h.2.1) (String.toList_injective h.2.2.1)
    have htriple := Prod.ext (String.toList_injective h.1) hrest
    have hfool := foolName_injective ha.2.2 hb.2.2 h.2.2.2.2
    rw [show a = b from Prod.ext htriple (Prod.ext (digits_injective h.2.2.2.1) hfool)]
  marked t _ := t.marked
  ending := foolCol_ending

def fakeMultidisorderCoding : Coding (String × String × Nat × String) where
  core := fakeMultidisorderRow
  dom a := a.1 ∈ allBlobsTcp ∧ a.2.1 ∈ allPositions ∧ a.2.2.1 ∈ numbers ∧ a.2.2.2 ∈ allFools
  tail := Tail.IsCore
  mark := '_'
  columns := [col "std_fmd_" allBlobsTcp, col "_p" allPositions, numberCol "_r", foolCol]
  values a := [a.1.toList, a.2.1.toList, digits a.2.2.1, (foolName a.2.2.2).toList]
  separated := ⟨by decide, closed_blobs, by decide, closed_positions, by decide, closed_numbers, by decide,
    closed_fools, trivial⟩
  fits _ ha := .cons (mem_col ha.1) (.cons (mem_col ha.2.1) (.cons (mem_numberCol ha.2.2.1)
    (.cons (mem_foolCol ha.2.2.2) .nil)))
  label a _ := by
    delta fakeMultidisorderRow
    simp only [render, col, numberCol, foolCol, String.toList_append, toList_number, List.append_assoc,
      List.append_nil]
  strategy a b ha hb h := by
    simp only [List.cons.injEq, and_true] at h
    have hblob := String.toList_injective h.1
    have hpos := String.toList_injective h.2.1
    have hfool := foolName_injective ha.2.2.2 hb.2.2.2 h.2.2.2
    rw [show a = b from Prod.ext hblob (Prod.ext hpos (Prod.ext (digits_injective h.2.2.1) hfool))]
  marked t _ := t.marked
  ending := foolCol_ending

def fakeHostfakeCoding : Coding (String × Nat × String × String) where
  core := fakeHostfakeRow
  dom a := a.1 ∈ allBlobsTcp ∧ a.2.1 ∈ numbers ∧ a.2.2.1 ∈ allFools ∧
    a.2.2.2 ∈ (axesFor .fakeHostfake).hfVariants
  tail := Tail.IsCore
  mark := '_'
  columns := [col "std_fh_" allBlobsTcp, numberCol "_r", col "_" (axesFor .fakeHostfake).hfVariants, foolCol]
  values a := [a.1.toList, digits a.2.1, a.2.2.2.toList, (foolName a.2.2.1).toList]
  separated := ⟨by decide, closed_blobs, by decide, closed_numbers, by decide, by decide, by decide,
    closed_fools, trivial⟩
  fits _ ha := .cons (mem_col ha.1) (.cons (mem_numberCol ha.2.1) (.cons (mem_col ha.2.2.2)
    (.cons (mem_foolCol ha.2.2.1) .nil)))
  label a _ := by
    delta fakeHostfakeRow
    simp only [render, col, numberCol, foolCol, String.toList_append, toList_number, List.append_assoc,
      List.append_nil]
  strategy a b ha hb h := by
    simp only [List.cons.injEq, and_true] at h
    have hblob := String.toList_injective h.1
    have hvariant := String.toList_injective h.2.2.1
    have hfool := foolName_injective ha.2.2.1 hb.2.2.1 h.2.2.2
    rw [show a = b from Prod.ext hblob (Prod.ext (digits_injective h.2.1) (Prod.ext hfool hvariant))]
  marked t _ := t.marked
  ending := foolCol_ending

def fakeMultisplitCoding : Coding ((String × String) × String × Nat × Nat × String) where
  core := fakeMultisplitRow
  dom a := (a.1.1 ∈ allBlobsTcp ∧ a.1.2 ∈ allBlobsTcp) ∧ a.2.1 ∈ allPositions ∧ a.2.2.1 ∈ numbers ∧
    a.2.2.2.1 ∈ numbers ∧ a.2.2.2.2 ∈ allFools
  tail := Tail.IsCore
  mark := '_'
  columns := [col "std_fms_" allBlobsTcp, col "+" allBlobsTcp, col "_p" allPositions, numberCol "_s", numberCol "_r",
    foolCol]
  values a := [a.1.1.toList, a.1.2.toList, a.2.1.toList, digits a.2.2.1, digits a.2.2.2.1,
    (foolName a.2.2.2.2).toList]
  separated := ⟨by decide, closed_blobs_plus, by decide, closed_blobs, by decide, closed_positions, by decide,
    closed_numbers, by decide, closed_numbers, by decide, closed_fools, trivial⟩
  fits _ ha := .cons (mem_col ha.1.1) (.cons (mem_col ha.1.2) (.cons (mem_col ha.2.1)
    (.cons (mem_numberCol ha.2.2.1) (.cons (mem_numberCol ha.2.2.2.1) (.cons (mem_foolCol ha.2.2.2.2) .nil)))))
  label a _ := by
    delta fakeMultisplitRow
    simp only [render, col, numberCol, foolCol, String.toList_append, toList_number, List.append_assoc,
      List.append_nil]
  strategy a b ha hb h := by
    simp only [List.cons.injEq, and_true] at h
    have hpair := Prod.ext (String.toList_injective h.1) (String.toList_injective h.2.1)
    have hpos := String.toList_injective h.2.2.1
    have hseqovl := digits_injective h.2.2.2.1
    have hfool := foolName_injective ha.2.2.2.2 hb.2.2.2.2 h.2.2.2.2.2
    have hrest := Prod.ext hseqovl (Prod.ext (digits_injective h.2.2.2.2.1) hfool)
    rw [show a = b from Prod.ext hpair (Prod.ext hpos hrest)]
  marked t _ := t.marked
  ending := foolCol_ending

def hfHosts : List String := (axesFor .fakeMultisplitHostfake).hfHosts

def hostWord (host : String) : Text := host.toList.takeWhile (· ≠ '.')

def fakeMultisplitHostfakeCoding : Coding ((String × String) × String × Nat × Nat × String × String) where
  core := fakeMultisplitHostfakeRow
  dom a := (a.1.1 ∈ allBlobsTcp ∧ a.1.2 ∈ allBlobsTcp) ∧ a.2.1 ∈ allPositions ∧ a.2.2.1 ∈ numbers ∧
    a.2.2.2.1 ∈ numbers ∧ a.2.2.2.2.1 ∈ allFools ∧ a.2.2.2.2.2 ∈ hfHosts
  tail := Tail.IsCore
  mark := '_'
  columns := [col "std_fmsh_" allBlobsTcp, col "+" allBlobsTcp, col "_p" allPositions, numberCol "_s",
    ⟨"_h".toList, hfHosts.map hostWord⟩, numberCol "_r", foolCol]
  values a := [a.1.1.toList, a.1.2.toList, a.2.1.toList, digits a.2.2.1, hostWord a.2.2.2.2.2, digits a.2.2.2.1,
    (foolName a.2.2.2.2.1).toList]
  separated := ⟨by decide, closed_blobs_plus, by decide, closed_blobs, by decide, closed_positions, by decide,
    closed_numbers, by decide, by decide, by decide, closed_numbers, by decide, closed_fools, trivial⟩
  fits _ ha := .cons (mem_col ha.1.1) (.cons (mem_col ha.1.2) (.cons (mem_col ha.2.1)
    (.cons (mem_numberCol ha.2.2.1) (.cons (List.mem_map_of_mem ha.2.2.2.2.2)
      (.cons (mem_numberCol ha.2.2.2.1) (.cons (mem_foolCol ha.2.2.2.2.1) .nil))))))
  label a _ := by
    delta fakeMultisplitHostfakeRow beforeMark hostWord
    simp only [render, col, numberCol, foolCol, String.toList_append, String.toList_ofList, toList_number,
      List.append_assoc, List.append_nil]
  strategy a b ha hb h := by
    simp only [List.cons.injEq, and_true] at h
    have hpair := Prod.ext (String.toList_injective h.1) (String.toList_injective h.2.1)
    have hpos := String.toList_injective h.2.2.1
    have hword : ∀ x ∈ hfHosts, ∀ y ∈ hfHosts, hostWord x = hostWord y → x = y := by decide
    have hhost := hword _ ha.2.2.2.2.2 _ hb.2.2.2.2.2 h.2.2.2.2.1
    have hfool := foolName_injective ha.2.2.2.2.1 hb.2.2.2.2.1 h.2.2.2.2.2.2
    have hrest := Prod.ext (digits_injective h.2.2.2.2.2.1) (Prod.ext hfool hhost)
    rw [show a = b from Prod.ext hpair (Prod.ext hpos (Prod.ext (digits_injective h.2.2.2.1) hrest))]
  marked t _ := t.marked
  ending := foolCol_ending

def fakeFakedsplitCoding : Coding (String × String × String × Nat × String) where
  core := fakeFakedsplitRow
  dom a := a.1 ∈ allBlobsTcp ∧ a.2.1 ∈ allBlobsTcp ∧ a.2.2.1 ∈ allPositions ∧ a.2.2.2.1 ∈ numbers ∧
    a.2.2.2.2 ∈ allFools
  tail := Tail.IsCore
  mark := '_'
  columns := [col "std_ffds_" allBlobsTcp, col "+" allBlobsTcp, col "_p" allPositions, numberCol "_r", foolCol]
  values a := [a.1.toList, a.2.1.toList, a.2.2.1.toList, digits a.2.2.2.1, (foolName a.2.2.2.2).toList]
  separated := ⟨by decide, closed_blobs_plus, by decide, closed_blobs, by decide, closed_positions, by decide,
    closed_numbers, by decide, closed_fools, trivial⟩
  fits _ ha := .cons (mem_col ha.1) (.cons (mem_col ha.2.1) (.cons (mem_col ha.2.2.1)
    (.cons (mem_numberCol ha.2.2.2.1) (.cons (mem_foolCol ha.2.2.2.2) .nil))))
  label a _ := by
    delta fakeFakedsplitRow
    simp only [render, col, numberCol, foolCol, String.toList_append, toList_number, List.append_assoc,
      List.append_nil]
  strategy a b ha hb h := by
    simp only [List.cons.injEq, and_true] at h
    have hblob := String.toList_injective h.1
    have hpattern := String.toList_injective h.2.1
    have hpos := String.toList_injective h.2.2.1
    have hfool := foolName_injective ha.2.2.2.2 hb.2.2.2.2 h.2.2.2.2
    have hrest := Prod.ext hpos (Prod.ext (digits_injective h.2.2.2.1) hfool)
    rw [show a = b from Prod.ext hblob (Prod.ext hpattern hrest)]
  marked t _ := t.marked
  ending := foolCol_ending

/-- A fake without a fooling, behind the prefix of its family. -/
def repeatedCoding (pre : String) (blobs : List String) (tail : Tail → Prop) (hpre : pre.toList ≠ [])
    (hblobs : Closed '_' (blobs.map String.toList)) : Coding (String × Nat) where
  core := repeatedRow pre
  dom a := a.1 ∈ blobs ∧ a.2 ∈ numbers
  tail := tail
  mark := '_'
  columns := [col pre blobs, numberCol "_r"]
  values a := [a.1.toList, digits a.2]
  separated := ⟨hpre, hblobs, by decide, closed_numbers, trivial⟩
  fits _ ha := .cons (mem_col ha.1) (.cons (mem_numberCol ha.2) .nil)
  label a _ := by
    delta repeatedRow
    simp only [render, col, numberCol, String.toList_append, toList_number, List.append_assoc, List.append_nil]
  strategy a b ha hb h := by
    simp only [List.cons.injEq, and_true] at h
    rw [show a = b from Prod.ext (String.toList_injective h.1) (digits_injective h.2)]
  marked t _ := t.marked
  ending := numberCol_ending

def replaced (marks : List Char) (text : String) : Text :=
  text.toList.map (fun c => if c ∈ marks then '_' else c)

theorem toList_replaceMarks (marks : List Char) (text : String) :
    (replaceMarks marks text).toList = replaced marks text := String.toList_ofList

def rstModCoding : Coding String :=
  listCoding rstModRow (axesFor .rstFake).mods "std_rst_" (replaced [':', '=']) (by decide) (by decide)
    (fun mod _ => by
      delta rstModRow
      rw [String.toList_append, toList_replaceMarks])
    (by decide)

def synackRows : List Row :=
  [("std_synack_synack", "synack_split:mode=synack"), ("std_synack_acksyn", "synack_split:mode=acksyn"),
    ("std_synack_bare", "synack"), ("std_synack_fool_nofool", "synack")]

def synackCoding : Coding Row :=
  listCoding id synackRows "std_synack_" (fun row => row.1.toList.drop 11) (by decide) (by decide) (by decide)
    (by decide)

def genevaFoolAxes : List (String × Nat) := (axesFor .genevaFool).fools ×ˢ (axesFor .genevaFool).repeats

def genevaFoolCoding : Coding (String × Nat) :=
  listCoding genevaFoolRow genevaFoolAxes "std_gva_"
    (fun a => replaced ['=', ':'] a.1 ++ ("_r".toList ++ digits a.2)) (by decide) (by decide +kernel)
    (fun a _ => by
      delta genevaFoolRow
      simp only [String.toList_append, toList_replaceMarks, toList_number, List.append_assoc])
    (by decide +kernel)

def wssizeRows : List Row :=
  [("std_wssize", "wssize:wsize=1:scale=6"),
    ("std_wssize_multisplit", "wssize:wsize=1:scale=6\nmultisplit:pos=1:seqovl=1")]

def wssizeCoding : Coding Row :=
  listCoding id wssizeRows "std_wssize" (fun row => row.1.toList.drop 10) (by decide) (by decide) (by decide)
    (by decide)

theorem toList_takeText (n : Nat) (text : String) : (takeText n text).toList = text.toList.take n :=
  String.toList_ofList

def padMods : List String := ["rnd,dupsid,padencap", "rnd,dupsid"]

def padCoding : Coding String :=
  listCoding padRow padMods "std_seqovl_pad_" (fun tmod => tmod.toList.take 12) (by decide) (by decide)
    (fun tmod _ => by
      delta padRow
      rw [String.toList_append, toList_takeText])
    (by decide)

/-- The row of the hostfake companion, or that of three axes. -/
def syndataCore : Option (String × String × Bool) → Row
  | none => ("std_syn_bare_hf_ts", "syndata\nhostfakesplit:nofake2:tcp_ts=-1000")
  | some a => syndataRow a

def syndataAxes : List (Option (String × String × Bool)) :=
  none :: ((axesFor .syndata).blobs ×ˢ (axesFor .syndata).tlsMods ×ˢ (axesFor .syndata).plusSplit).map some

def syndataValue : Option (String × String × Bool) → Text
  | none => "bare_hf_ts".toList
  | some (blob, tmod, plus) => (if blob = "" then "bare".toList else blob.toList) ++ ("_".toList ++
      ((if tmod.toList.take 15 = [] then "nomod".toList else tmod.toList.take 15) ++
        (if plus then "_split".toList else "".toList)))

theorem toList_ite (p : Prop) [Decidable p] (s t : String) :
    (if p then s else t).toList = if p then s.toList else t.toList := apply_ite String.toList p s t

theorem takeText_eq_empty (n : Nat) (text : String) : takeText n text = "" ↔ text.toList.take n = [] := by
  rw [← String.toList_inj, toList_takeText, String.toList_empty]

def syndataCoding : Coding (Option (String × String × Bool)) :=
  listCoding syndataCore syndataAxes "std_syn_" syndataValue (by decide) (by decide)
    (fun a _ => by
      cases a with
      | none => decide
      | some a =>
          delta syndataCore syndataRow syndataValue
          simp only [String.toList_append, toList_ite, takeText_eq_empty, toList_takeText, List.append_assoc])
    (by decide +kernel)

def tcpsegAxes : List (String × Nat) := (axesFor .tcpseg).positions ×ˢ (axesFor .tcpseg).repeats

def tcpsegCoding : Coding (String × Nat) :=
  listCoding (tcpsegRow "rnd") tcpsegAxes "std_tcpseg_p" (fun a => a.1.toList ++ ("_r".toList ++ digits a.2))
    (by decide) (by decide)
    (fun a _ => by
      delta tcpsegRow
      simp only [String.toList_append, toList_number, List.append_assoc])
    (by decide)

def oobCoding : Coding String :=
  listCoding (oobRow (some "-s1")) (axesFor .oob).urps "std_oob_urp" String.toList (by decide) (by decide)
    (fun urp _ => by
      delta oobRow
      rw [String.toList_append])
    (by decide)

def optionText (text : String) : Option Nat → Text
  | none => []
  | some n => text.toList ++ digits n

def ipfragValue (a : String × Bool × Option Nat) : Text :=
  a.1.toList ++ ((if a.2.1 then "_disorder".toList else "".toList) ++ optionText "_next" a.2.2)

theorem toList_ipfragLabel (pre pos : String) (disorder : Bool) (nxt : Option Nat) :
    (ipfragLabel pre pos disorder nxt).toList = pre.toList ++ ipfragValue (pos, disorder, nxt) := by
  delta ipfragLabel ipfragValue
  cases nxt with
  | none =>
      simp only [String.toList_append, toList_ite, optionText, String.toList_empty, List.append_assoc]
  | some n => simp only [String.toList_append, toList_ite, optionText, toList_number, List.append_assoc]

def ipfragAxes : List (String × Bool × Option Nat) :=
  ipfragPositions ×ˢ [false, true] ×ˢ [none, some 255]

theorem ipfragValue_injective : ∀ a ∈ ipfragAxes, ∀ b ∈ ipfragAxes, ipfragValue a = ipfragValue b → a = b := by
  decide +kernel

def tcpIpfragCoding : Coding (String × Bool × Option Nat) :=
  listCoding (ipfragRow "tcp") ipfragAxes "std_tcp_ipfrag_pos" ipfragValue (by decide) (by decide)
    (fun a _ => by
      delta ipfragRow
      rw [toList_ipfragLabel]
      rfl)
    ipfragValue_injective

def quicIpfragCoding : Coding (String × Bool × Option Nat) :=
  listCoding (ipfragRow "udp") ipfragAxes "std_quic_ipfrag_pos" ipfragValue (by decide) (by decide)
    (fun a _ => by
      delta ipfragRow
      rw [toList_ipfragLabel]
      rfl)
    ipfragValue_injective

theorem toList_ipfragLabel_plain (pre pos : String) :
    (ipfragLabel pre pos false none).toList = pre.toList ++ pos.toList := by
  rw [toList_ipfragLabel, ipfragValue, optionText, String.toList_empty, List.append_nil]
  exact congrArg (pre.toList ++ ·) (List.append_nil _)

def comboBlobs : List String := ["stun", "google"]

def tcpFakeIpfragCoding : Coding (String × String × Nat × Bool) where
  core := fakeIpfragRow "tcp"
  dom a := a.1 ∈ ipfragPositions ∧ a.2.1 ∈ comboBlobs ∧ a.2.2.1 ∈ numbers ∧ a.2.2.2 = false
  tail := Tail.IsCore
  mark := '_'
  columns := [col "std_tcp_fake_ipfrag_" comboBlobs, numberCol "_r", col "_pos" ipfragPositions]
  values a := [a.2.1.toList, digits a.2.2.1, a.1.toList]
  separated := by decide
  fits _ ha := .cons (mem_col ha.2.1) (.cons (mem_numberCol ha.2.2.1) (.cons (mem_col ha.1) .nil))
  label a ha := by
    obtain ⟨pos, blob, r, disorder⟩ := a
    obtain rfl : disorder = false := ha.2.2.2
    delta fakeIpfragRow
    dsimp only
    rw [toList_ipfragLabel_plain]
    simp only [if_true, render, col, numberCol, String.toList_append, toList_number, List.append_assoc,
      List.append_nil]
    rfl
  strategy a b ha hb h := by
    simp only [List.cons.injEq, and_true] at h
    have hpos := String.toList_injective h.2.2
    have hblob := String.toList_injective h.1
    have hdisorder := ha.2.2.2.trans hb.2.2.2.symm
    rw [show a = b from Prod.ext hpos (Prod.ext hblob (Prod.ext (digits_injective h.2.1) hdisorder))]
  marked t _ := t.marked
  ending := by decide

/-- The label of a QUIC row does not tell its blob, which is the default one. -/
def quicFakeIpfragCoding : Coding (String × String × Nat × Bool) where
  core := fakeIpfragRow "udp"
  dom a := a.1 ∈ ipfragPositions ∧ a.2.1 = "fake_default_quic" ∧ a.2.2.1 ∈ numbers ∧ a.2.2.2 = false
  tail := Tail.IsCore
  mark := '_'
  columns := [numberCol "std_quic_fake_ipfrag_r", col "_pos" ipfragPositions]
  values a := [digits a.2.2.1, a.1.toList]
  separated := by decide
  fits _ ha := .cons (mem_numberCol ha.2.2.1) (.cons (mem_col ha.1) .nil)
  label a ha := by
    obtain ⟨pos, blob, r, disorder⟩ := a
    obtain rfl : disorder = false := ha.2.2.2
    delta fakeIpfragRow
    dsimp only
    rw [toList_ipfragLabel_plain]
    simp only [render, col, numberCol, String.toList_append, toList_number, List.append_assoc, List.append_nil]
    rfl
  strategy a b ha hb h := by
    simp only [List.cons.injEq, and_true] at h
    have hpos := String.toList_injective h.2
    have hblob := ha.2.1.trans hb.2.1.symm
    have hdisorder := ha.2.2.2.trans hb.2.2.2.symm
    rw [show a = b from Prod.ext hpos (Prod.ext hblob (Prod.ext (digits_injective h.1) hdisorder))]
  marked t _ := t.marked
  ending := by decide

def httpSimpleCoding : Coding String :=
  listCoding httpSimpleRow (axesFor .httpSimple).variants "std_http_" (replaced [':']) (by decide) (by decide)
    (fun variant _ => by
      delta httpSimpleRow
      rw [String.toList_append, toList_replaceMarks])
    (by decide)

def quicIp6Coding : Coding String :=
  listCoding quicIp6Row allFoolingsIpv6 "std_quic_ip6_" (replaced [':']) (by decide) (by decide)
    (fun fool _ => by
      delta quicIp6Row
      rw [String.toList_append, toList_replaceMarks])
    (by decide)

def udpMultiblobAxes : List ((String × String) × Nat) :=
  (axesFor .udpMultiblob).profiles ×ˢ (axesFor .udpMultiblob).repeats

def udpMultiblobCoding : Coding ((String × String) × Nat) :=
  listCoding udpMultiblobRow udpMultiblobAxes "std_udp_multiblob_"
    (fun a => a.1.1.toList ++ ("+".toList ++ (a.1.2.toList ++ ("_r".toList ++ digits a.2))))
    (by decide) (by decide)
    (fun a _ => by
      delta udpMultiblobRow
      simp only [String.toList_append, toList_number, List.append_assoc])
    (by decide)

def gameBlobs : List String := (axesFor .udpGame).blobs

def gameRanges : List (Option String) := (axesFor .udpGame).outRange

def rangeText (range : Option String) : Text := (range.getD "no").toList

def udpGameCoding : Coding (String × Nat × Option String) where
  core := udpGameRow
  dom a := a.1 ∈ gameBlobs ∧ a.2.1 ∈ numbers ∧ a.2.2 ∈ gameRanges
  tail := Tail.IsCore
  mark := '_'
  columns := [col "std_udp_game_" gameBlobs, numberCol "_r",
    ⟨"_".toList, gameRanges.map rangeText⟩]
  values a := [a.1.toList, digits a.2.1, rangeText a.2.2]
  separated := by decide
  fits _ ha := .cons (mem_col ha.1) (.cons (mem_numberCol ha.2.1) (.cons (List.mem_map_of_mem ha.2.2) .nil))
  label a _ := by
    delta udpGameRow rangeText
    simp only [render, col, numberCol, String.toList_append, toList_number, List.append_assoc, List.append_nil]
  strategy a b ha hb h := by
    simp only [List.cons.injEq, and_true] at h
    have hblob := String.toList_injective h.1
    have hinj : ∀ x ∈ gameRanges, ∀ y ∈ gameRanges, rangeText x = rangeText y → x = y := by decide
    have hrange := hinj _ ha.2.2 _ hb.2.2 h.2.2
    rw [show a = b from Prod.ext hblob (Prod.ext (digits_injective h.2.1) hrange)]
  marked t _ := t.marked
  ending := by decide

end Blockchecks.FamilyFormats
