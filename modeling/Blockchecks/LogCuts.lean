import Blockchecks.LogTail

namespace Blockchecks.LogCuts

open ExportConf Utf8Replace LogTail

/-- The bytes of the characters that end a line. -/
def lineEnds : List (List UInt8) :=
  [[0x0A], [0x0B], [0x0C], [0x0D], [0x1C], [0x1D], [0x1E], [0xC2, 0x85], [0xE2, 0x80, 0xA8], [0xE2, 0x80, 0xA9]]

def endsLine (bytes : List UInt8) : Bool := lineEnds.any (fun ending => ending.isSuffixOf bytes)

/-- What was read ends a line, and the rest does not go on with its end. -/
def GoodCut (read rest : List UInt8) : Prop :=
  endsLine read = true ∧ ¬ (read.getLast? = some 0x0D ∧ rest.head? = some 0x0A)

/-- Every request that finds new bytes and is not the last to find some makes a good cut. -/
def GoodPolls (unread : List UInt8) : List Op → Prop
  | [] => True
  | .append bytes :: ops => GoodPolls (unread ++ bytes) ops
  | .poll :: ops =>
      (unread ≠ [] → appended ops ≠ [] → GoodCut unread (appended ops)) ∧ GoodPolls [] ops

theorem stops : LineSplit.Stops isLineBreak '\r' '\n' := ⟨by decide, by decide, by decide⟩

variable {s t bytes : List UInt8} {c : Char} {n : Nat}

/-- The code points of line breaks are encoded by the line ends. -/
theorem mem_lineEnds (h : Encodes bytes n)
    (hn : n ∈ [0x0a, 0x0b, 0x0c, 0x0d, 0x1c, 0x1d, 0x1e, 0x85, 0x2028, 0x2029]) : bytes ∈ lineEnds := by
  have hbyte : ∀ {a : UInt8} {m : Nat}, a.toNat = m → a = UInt8.ofNat m := by
    rintro a m rfl
    exact UInt8.ofNat_toNat.symm
  have hascii : ∀ m ∈ [0x0a, 0x0b, 0x0c, 0x0d, 0x1c, 0x1d, 0x1e], [UInt8.ofNat m] ∈ lineEnds := by decide
  simp only [List.mem_cons, List.not_mem_nil, or_false] at hn
  cases h with
  | one a ha =>
      have hmem : a.toNat ∈ [0x0a, 0x0b, 0x0c, 0x0d, 0x1c, 0x1d, 0x1e] := by
        simp only [List.mem_cons, List.not_mem_nil, or_false]
        omega
      rw [hbyte (a := a) rfl]
      exact hascii _ hmem
  | two a b ha ha' hb hb' =>
      have hfirst : a.toNat = 0xC2 := by omega
      have hsecond : b.toNat = 0x85 := by omega
      rw [hbyte hfirst, hbyte hsecond]
      decide
  | three a b c ha ha' hb hb' hover hc hc' =>
      have hfirst : a.toNat = 0xE2 := by omega
      have hsecond : b.toNat = 0x80 := by omega
      have hthird : c.toNat = 0xA8 ∨ c.toNat = 0xA9 := by omega
      rw [hbyte hfirst, hbyte hsecond]
      rcases hthird with hthird | hthird
      · rw [hbyte hthird]
        decide
      · rw [hbyte hthird]
        decide
  | four a b c d ha hb hover hc hd => omega

theorem isLineBreak_iff (c : Char) :
    isLineBreak c = true ↔ c.toNat ∈ [0x0a, 0x0b, 0x0c, 0x0d, 0x1c, 0x1d, 0x1e, 0x85, 0x2028, 0x2029] :=
  decide_eq_true_iff

/-- Bytes that begin with a fresh one decide how the text ends. -/
theorem getLast_decode_fresh {b : UInt8} (h : ¬ (0x80 ≤ b.toNat ∧ b.toNat ≤ 0xBF)) (s t : List UInt8) :
    (decode (s ++ b :: t)).getLast? = (decode (b :: t)).getLast? := by
  obtain ⟨before, hbefore⟩ := decode_fresh h s t
  rw [hbefore, List.getLast?_append_of_ne_nil _ (decode_ne_nil (List.cons_ne_nil b t))]

theorem endsLine_iff (s : List UInt8) :
    endsLine s = true ↔ ∃ c, (decode s).getLast? = some c ∧ isLineBreak c = true := by
  have hends : ∀ ending ∈ lineEnds, ∃ b t, ending = b :: t ∧ ¬ (0x80 ≤ b.toNat ∧ b.toNat ≤ 0xBF) ∧
      (decode ending).getLast?.any isLineBreak = true := by
    simp only [lineEnds, List.mem_cons, List.not_mem_nil, or_false]
    rintro ending (rfl | rfl | rfl | rfl | rfl | rfl | rfl | rfl | rfl | rfl) <;>
      exact ⟨_, _, rfl, by decide, by decide⟩
  constructor
  · intro h
    obtain ⟨ending, hmem, hsuffix⟩ := List.any_eq_true.mp h
    obtain ⟨before, rfl⟩ := List.isSuffixOf_iff_suffix.mp hsuffix
    obtain ⟨b, t, rfl, hfresh, hlast⟩ := hends ending hmem
    rw [getLast_decode_fresh hfresh]
    exact (Option.any_eq_true _ _).mp hlast
  · rintro ⟨c, hlast, hbreak⟩
    have hmem := (isLineBreak_iff c).mp hbreak
    have hc : c ≠ replacement := by
      rintro rfl
      exact absurd hbreak (by decide)
    obtain ⟨bytes, n, hencodes, hsuffix, hn⟩ := encodes_of_getLast hlast hc
    have hzero : c.toNat ≠ 0 := fun h0 => absurd (h0 ▸ hmem) (by decide)
    rw [← eq_toNat_of_ofNat_eq hn.symm hzero] at hmem
    exact List.any_eq_true.mpr ⟨bytes, mem_lineEnds hencodes hmem, List.isSuffixOf_iff_suffix.mpr hsuffix⟩

theorem getLast_return_iff (s : List UInt8) :
    (decode s).getLast? = some '\r' ↔ s.getLast? = some 0x0D := by
  constructor
  · intro h
    obtain ⟨bytes, n, hencodes, hsuffix, hn⟩ := encodes_of_getLast h (by decide)
    have hcode : n = 0x0D := eq_toNat_of_ofNat_eq hn.symm (by decide)
    obtain ⟨a, rfl, ha⟩ := singleton_of_ascii hencodes (by omega)
    obtain ⟨before, rfl⟩ := hsuffix
    rw [List.getLast?_concat, UInt8.toNat_inj.mp (ha.trans hcode : a.toNat = (0x0D : UInt8).toNat)]
  · intro h
    obtain ⟨before, rfl⟩ := List.getLast?_eq_some_iff.mp h
    rw [getLast_decode_fresh (by decide)]
    rfl

theorem cut_iff (s t : List UInt8) :
    LineSplit.Cut isLineBreak '\r' '\n' (decode s) (decode t) ↔ GoodCut s t := by
  rw [LineSplit.Cut, GoodCut, endsLine_iff, getLast_return_iff, head_decode]

/-- The lines of bytes that are read at once. -/
def readLines (bytes : List UInt8) : List (List Char) := splitlines (decode bytes)

theorem replacement_open : ¬ isLineBreak replacement = true := by decide

/-- After a read that ends with a whole character, the rest is decoded as it stands. -/
theorem decode_append_done (h : pendingAfter [] s = []) (t : List UInt8) :
    decode (s ++ t) = decode s ++ decode t := by
  rw [decode_append, h, decode_of_done h]
  rfl

/-- A read that ends within a character tears it. -/
theorem decode_append_pending (h : pendingAfter [] s ≠ []) (t : List UInt8) :
    ∃ before c n rest, decode (s ++ t) = before ++ c :: rest ∧ decode s = before ++ [replacement] ∧
      decode t = List.replicate n replacement ++ rest ∧ c ≠ '\n' ∧ c ≠ '\r' := by
  obtain ⟨q, rest, c, -, hfrom, hrest, -, hn, hr⟩ :=
    decodeFrom_waiting (waiting_pendingAfter waiting_nil s) h t
  exact ⟨emitted [] s, c, q.length, decode rest, by rw [decode_append, hfrom], decode_of_pending h, hrest, hn, hr⟩

theorem length_readLines_append_le (s t : List UInt8) :
    (readLines (s ++ t)).length ≤ (readLines s).length + (readLines t).length := by
  by_cases h : pendingAfter [] s = []
  · rw [readLines, decode_append_done h]
    exact LineSplit.length_lines_append_le stops _ _
  · obtain ⟨before, c, n, rest, hjoin, hs, ht, hc, -⟩ := decode_append_pending h t
    rw [readLines, readLines, readLines, hjoin, hs, ht]
    exact LineSplit.length_lines_torn_le stops hc (by decide) (by decide) n before rest

theorem readLines_append (h : GoodCut s t) : readLines (s ++ t) = readLines s ++ readLines t := by
  have hdone : pendingAfter [] s = [] := by
    by_contra hne
    obtain ⟨c, hlast, hbreak⟩ := (endsLine_iff s).mp h.1
    rw [decode_of_pending hne, List.getLast?_concat] at hlast
    exact replacement_open (Option.some.inj hlast ▸ hbreak)
  rw [readLines, decode_append_done hdone]
  exact LineSplit.lines_append ((cut_iff s t).mpr h)

/-- A bad cut shows, whatever the rest is cut into. -/
theorem readLines_append_ne (hs : s ≠ []) (ht : t ≠ []) (h : ¬ GoodCut s t) {more : List (List Char)}
    (hmore : (readLines t).length ≤ more.length) : readLines (s ++ t) ≠ readLines s ++ more := by
  have hcount : (readLines (s ++ t)).length < (readLines s).length + (readLines t).length →
      readLines (s ++ t) ≠ readLines s ++ more := by
    intro hlt heq
    rw [heq, List.length_append] at hlt
    omega
  by_cases hdone : pendingAfter [] s = []
  · apply hcount
    rw [readLines, decode_append_done hdone]
    exact LineSplit.length_lines_append_lt stops (decode_ne_nil hs) (decode_ne_nil ht) (fun hcut => h ((cut_iff s t).mp hcut))
  · obtain ⟨before, c, n, rest, hjoin, hs', ht', hn, hr⟩ := decode_append_pending hdone t
    by_cases hc : isLineBreak c = true
    · rw [readLines, readLines, hjoin, hs']
      exact LineSplit.lines_torn_ne stops hc hr hn replacement_open before rest more
    · apply hcount
      rw [readLines, readLines, readLines, hjoin, hs', ht']
      exact LineSplit.length_lines_torn_lt stops hc (by decide) (by decide) (ht' ▸ decode_ne_nil ht) before

theorem readLines_nil : readLines [] = [] := rfl

/-- What was read and what follows make the lines of all if the cut is good and the rest is right. -/
theorem readLines_append_iff {more : List (List Char)} (hmore : (readLines t).length ≤ more.length) :
    readLines s ++ more = readLines (s ++ t) ↔ (s ≠ [] → t ≠ [] → GoodCut s t) ∧ more = readLines t := by
  by_cases hs : s = []
  · rw [hs, List.nil_append, readLines_nil, List.nil_append]
    exact ⟨fun h => ⟨fun hne => absurd rfl hne, h⟩, fun h => h.2⟩
  · by_cases ht : t = []
    · rw [ht, List.append_nil, readLines_nil, List.append_right_eq_self]
      exact ⟨fun h => ⟨fun _ hne => absurd rfl hne, h⟩, fun h => h.2⟩
    · by_cases hcut : GoodCut s t
      · rw [readLines_append hcut, List.append_cancel_left_eq]
        exact ⟨fun h => ⟨fun _ _ => hcut, h⟩, fun h => h.2⟩
      · exact ⟨fun h => absurd h.symm (readLines_append_ne hs ht hcut hmore), fun h => absurd (h.1 hs ht) hcut⟩

theorem length_polledLines (unread : List UInt8) (ops : List Op) :
    (readLines (unread ++ appended ops)).length ≤ (polledLines unread (ops ++ [.poll])).length := by
  induction ops generalizing unread with
  | nil =>
      rw [appended, List.append_nil]
      exact Nat.le_of_eq (congrArg List.length (List.append_nil (readLines unread)).symm)
  | cons op ops ih =>
      cases op with
      | append bytes =>
          rw [appended, ← List.append_assoc]
          exact ih _
      | poll =>
          have hrest := ih []
          have hjoin := length_readLines_append_le unread (appended ops)
          rw [List.nil_append] at hrest
          rw [appended, List.cons_append, polledLines, List.length_append]
          exact Nat.le_trans hjoin (Nat.add_le_add_left hrest _)

/-- The replies put together are the lines of all bytes exactly if every request cuts well. -/
theorem polledLines_eq_iff (unread : List UInt8) (ops : List Op) :
    polledLines unread (ops ++ [.poll]) = readLines (unread ++ appended ops) ↔ GoodPolls unread ops := by
  induction ops generalizing unread with
  | nil =>
      rw [appended, List.append_nil, GoodPolls]
      exact iff_true_intro (List.append_nil (readLines unread))
  | cons op ops ih =>
      cases op with
      | append bytes =>
          rw [appended, ← List.append_assoc, GoodPolls]
          exact ih _
      | poll =>
          have hrest := ih []
          rw [List.nil_append] at hrest
          have hlength := length_polledLines [] ops
          rw [List.nil_append] at hlength
          rw [appended, List.cons_append, polledLines, GoodPolls, ← hrest]
          exact readLines_append_iff hlength

theorem appended_poll (ops : List Op) : appended (ops ++ [.poll]) = appended ops := by
  induction ops with
  | nil => rfl
  | cons op ops ih =>
      cases op with
      | append bytes => exact congrArg (bytes ++ ·) ih
      | poll => exact ih

/-- A reader who goes on from the offset of each reply has in the end the lines of the whole
file if and only if every request that found new bytes, and was not the last to find some,
came when the file ended with a line that was complete. -/
theorem tail_loses_nothing_iff (dir : LogDir) (source path : String) (ops : List Op)
    (hsource : source ∈ logSources) (hpath : dir.pathForSource source = some path) :
    (run dir source path begun (ops ++ [.poll])).lines =
        splitlines (decode ((run dir source path begun (ops ++ [.poll])).file.getD [])) ↔
      GoodPolls [] ops := by
  have hnone : begun.file.getD [] = [] ++ [] := rfl
  have hlines : (run dir source path begun (ops ++ [.poll])).lines = polledLines [] (ops ++ [.poll]) :=
    run_lines hsource hpath (ops ++ [.poll]) hnone rfl
  have hfile : (run dir source path begun (ops ++ [.poll])).file.getD [] = [] ++ appended ops := by
    rw [run_file, appended_poll]
    rfl
  rw [hlines, hfile]
  exact polledLines_eq_iff [] ops

/-- One log file, and none of the others. -/
def oneLog : LogDir where
  pathForSource source := if source = "campaign" then some "logs/run_a.log" else none
  readBytes _ := none
  stripAnsi line := line
  redactLine line := line

/-- A line that is written in two parts, and a request in between. -/
def tornLine : List Op := [.append [0x61], .poll, .append [0x62, 0x0A]]

theorem tail_loses_nothing_iff_torn :
    (run oneLog "campaign" "logs/run_a.log" begun (tornLine ++ [.poll])).lines =
        splitlines (decode ((run oneLog "campaign" "logs/run_a.log" begun (tornLine ++ [.poll])).file.getD [])) ↔
      GoodPolls [] tornLine :=
  tail_loses_nothing_iff oneLog "campaign" "logs/run_a.log" tornLine (by decide) rfl

/-- The line comes back as two. -/
theorem torn_line_doubled :
    ¬ ∀ (dir : LogDir) (source path : String) (ops : List Op), source ∈ logSources →
      dir.pathForSource source = some path →
      ((run dir source path begun (ops ++ [.poll])).file.getD []).getLast? = some 0x0A →
      (run dir source path begun (ops ++ [.poll])).lines =
        splitlines (decode ((run dir source path begun (ops ++ [.poll])).file.getD [])) := by
  intro h
  have htorn := h oneLog "campaign" "logs/run_a.log" tornLine (by decide) rfl (by decide)
  have hlines : (run oneLog "campaign" "logs/run_a.log" begun (tornLine ++ [.poll])).lines = [['a'], ['b']] := by
    decide
  have hwhole : splitlines
      (decode ((run oneLog "campaign" "logs/run_a.log" begun (tornLine ++ [.poll])).file.getD [])) = [['a', 'b']] := by
    decide
  rw [hlines, hwhole] at htorn
  exact absurd htorn (by decide)

end Blockchecks.LogCuts
