import Blockchecks.TextFile

namespace Blockchecks.ProviderImport

open StrategyText TextFile

abbrev Text := List Char

def normalizeStrategy (line : Text) : Text :=
  let line := strip line
  if line = [] ∨ startsWith line "#" then []
  else match afterFirst "--lua-desync=".toList line with
    | some rest => strip rest
    | none => if startsWith line "--" then [] else line

/-- The parts of a provider summary that are read here. A protocol, and a
domain of the shortlist, stands in it once. -/
structure Summary where
  providerId : Text := "unknown".toList
  generatedAt : Text := []
  customStrategies : List (String × List Text) := []
  shortlist : List (String × List (String × Text)) := []

def addLine (bucket : List Text) (raw : Text) : List Text :=
  let s := normalizeStrategy raw
  if s ≠ [] ∧ s ∉ bucket then bucket ++ [s] else bucket

/-- Append to the bucket of a protocol, which setdefault makes when there is none. -/
def addProfile (out : List (String × List Text)) (profile : String × Text) : List (String × List Text) :=
  if normalizeStrategy profile.2 = [] then out
  else if out.any (fun b => b.1 = profile.1) then
    out.map (fun b => if b.1 = profile.1 then (b.1, addLine b.2 profile.2) else b)
  else out ++ [(profile.1, addLine [] profile.2)]

def extractStrategies (summary : Summary) : List (String × List Text) :=
  let custom := (summary.customStrategies.map (fun b => (b.1, b.2.foldl addLine []))).filter
    (fun b => b.2 ≠ [])
  (summary.shortlist.flatMap Prod.snd).foldl addProfile custom

def extension (proto : String) : String :=
  if proto = "quic" then "quic" else if proto = "udp_voice" then "udp"
  else if proto = "http" then "http" else "tls"

def header (summary : Summary) : List Text :=
  ["# Imported from provider_summary (".toList ++ summary.providerId ++ [')'],
    "# generated_at: ".toList ++ summary.generatedAt, []]

structure Preset where
  proto : String
  file : String
  text : Text

def writeShortlistPresets (summary : Summary) (pre : String) : List Preset :=
  (extractStrategies summary).map (fun b =>
    ⟨b.1, pre ++ "-" ++ b.1 ++ "." ++ extension b.1, joinLines (header summary ++ b.2) ++ ['\n']⟩)

/-- StrategyLoader.from_file on the text of a file. -/
def fromFile (text : Text) : List Text :=
  ((((universalNewlines text).splitOn '\n').map strip).filter
    (fun line => line ≠ [] && !startsWith line "#")).map unescapeNewlines

def existingLines (lines : List Text) : List Text :=
  (lines.filter (fun line => strip line ≠ [] && !startsWith line "#")).map strip

def mergeLine (merged : List Text × List Text) (s : Text) : List Text × List Text :=
  if s ∈ merged.2 then merged else (merged.1 ++ [s], merged.2 ++ [s])

def matrixLines (matrix : Option Text) : List Text :=
  match matrix with
  | some text => splitlines (universalNewlines text)
  | none => []

/-- The new text of a matrix file, which may not exist. -/
def mergeIntoUserMatrix (summary : Summary) (matrix : Option Text) (append : Bool) : Text :=
  let strategies := extractStrategies summary
  let lines := if append then matrixLines matrix else []
  let merged := (["tls12", "tls13", "http", "quic", "udp_voice"].flatMap
    (fun proto => (strategies.lookup proto).getD [])).foldl mergeLine (lines, existingLines lines)
  joinLines merged.1 ++ ['\n']

variable {s : Text}

theorem length_normalizeStrategy_le (s : Text) : (normalizeStrategy s).length ≤ s.length := by
  have hstrip (t : Text) : (strip t).length ≤ t.length := (TextLines.infix_strip t).length_le
  rw [normalizeStrategy]
  split
  · exact Nat.zero_le _
  · split
    next rest hrest =>
      have hafter := length_afterFirst hrest
      have h₁ := hstrip rest
      have h₂ := hstrip s
      omega
    · split
      · exact Nat.zero_le _
      · exact hstrip s

/-- What normalization leaves as it is. -/
structure Normal (s : Text) : Prop where
  stripped : strip s = s
  noComment : startsWith s "#" = false
  noDesync : contains s "--lua-desync=" = false
  noOption : startsWith s "--" = false

theorem normalizeStrategy_eq_self (h : Normal s) : normalizeStrategy s = s := by
  have hafter : afterFirst "--lua-desync=".toList s = none := (afterFirst_eq_none_iff (by decide)).mpr h.noDesync
  rw [normalizeStrategy, h.stripped]
  by_cases hs : s = []
  · rw [hs, if_pos (Or.inl rfl)]
  · rw [if_neg (fun hor => hor.elim hs (fun hc => Bool.false_ne_true (h.noComment.symm.trans hc))), hafter]
    exact if_neg (fun hc => Bool.false_ne_true (h.noOption.symm.trans hc))

/-- Normalization shortens whatever it changes. -/
theorem normal_of_length (hs : s ≠ []) (h : s.length ≤ (normalizeStrategy s).length) : Normal s := by
  have hstrip (t : Text) : (strip t).length ≤ t.length := (TextLines.infix_strip t).length_le
  have hpos : 0 < s.length := List.length_pos_iff.mpr hs
  rw [normalizeStrategy] at h
  split at h
  · exact absurd h (Nat.not_le.mpr hpos)
  next hline =>
    rw [not_or] at hline
    split at h
    next rest hrest =>
      have hafter := length_afterFirst hrest
      have h₁ := hstrip rest
      have h₂ := hstrip s
      have hsep : "--lua-desync=".toList.length = 13 := by decide
      omega
    next hnone =>
      split at h
      · exact absurd h (Nat.not_le.mpr hpos)
      next hoption =>
        have hself : strip s = s := (strip_eq_or_shorter s).resolve_right (Nat.not_lt.mpr h)
        rw [hself] at hline hnone hoption
        exact ⟨hself, Bool.eq_false_iff.mpr hline.2, (afterFirst_eq_none_iff (by decide)).mp hnone,
          Bool.eq_false_iff.mpr hoption⟩

theorem foldl_addLine_append {bucket lines : List Text} (h : ∀ s ∈ lines, Normal s ∧ s ≠ [])
    (hn : (bucket ++ lines).Nodup) : lines.foldl addLine bucket = bucket ++ lines := by
  induction lines generalizing bucket with
  | nil => exact (List.append_nil bucket).symm
  | cons s lines ih =>
      obtain ⟨hnormal, hs⟩ := h s List.mem_cons_self
      have hnot : s ∉ bucket := by
        intro hin
        exact (List.nodup_append.mp hn).2.2 s hin s List.mem_cons_self rfl
      have hstep : addLine bucket s = bucket ++ [s] := by
        rw [addLine, normalizeStrategy_eq_self hnormal]
        exact if_pos ⟨hs, hnot⟩
      rw [List.append_cons] at hn
      rw [List.foldl_cons, hstep, ih (fun t ht => h t (List.mem_cons_of_mem _ ht)) hn,
        List.append_assoc, List.singleton_append]

/-- A bucket has at most one line for each of the lines it is made of, and no blank one. -/
theorem foldl_addLine_sublist (lines bucket : List Text) :
    ∃ kept, lines.foldl addLine bucket = bucket ++ kept ∧
      kept.Sublist (lines.map normalizeStrategy) ∧ ∀ s ∈ kept, s ≠ [] := by
  induction lines generalizing bucket with
  | nil => exact ⟨[], (List.append_nil _).symm, List.Sublist.slnil, fun _ h => absurd h List.not_mem_nil⟩
  | cons raw lines ih =>
      rw [List.foldl_cons, addLine, List.map_cons]
      split
      next hnew =>
        obtain ⟨kept, hkept, hsub, hblank⟩ := ih (bucket ++ [normalizeStrategy raw])
        refine ⟨normalizeStrategy raw :: kept, ?_, hsub.cons_cons _, ?_⟩
        · rw [hkept, List.append_assoc, List.singleton_append]
        · intro s hs
          rcases List.mem_cons.mp hs with rfl | hs
          · exact hnew.1
          · exact hblank s hs
      · obtain ⟨kept, hkept, hsub, hblank⟩ := ih bucket
        exact ⟨kept, hkept, hsub.cons _, hblank⟩

end Blockchecks.ProviderImport
