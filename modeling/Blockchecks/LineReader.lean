import Blockchecks.Utf8Replace

namespace Blockchecks.LineReader

def newline : UInt8 := 0x0A

/-- The pieces between newlines; after the last newline there is one only if
something follows it. -/
def pieces (stream : List UInt8) : List (List UInt8) :=
  let parts := stream.splitOn newline
  if parts.getLast? = some [] then parts.dropLast else parts

theorem pieces_line {line : List UInt8} (h : newline ∉ line) (rest : List UInt8) :
    pieces (line ++ newline :: rest) = line :: pieces rest := by
  have hparts : (line ++ newline :: rest).splitOn newline = line :: rest.splitOn newline := by
    rw [List.splitOn_append_cons_self, List.splitOn_eq_singleton h, List.singleton_append]
  obtain ⟨part, parts, hrest⟩ := List.exists_cons_of_ne_nil (List.splitOn_ne_nil newline rest)
  rw [pieces, pieces, hparts, hrest, List.getLast?_cons_cons]
  split
  · rw [List.dropLast_cons_of_ne_nil (List.cons_ne_nil part parts)]
  · rfl

theorem pieces_last {line : List UInt8} (h : newline ∉ line) (hne : line ≠ []) : pieces line = [line] := by
  rw [pieces, List.splitOn_eq_singleton h]
  exact if_neg (fun hlast => hne (Option.some.inj hlast))

/-- What one read of the descriptor delivers. -/
structure Chunk where
  bytes : List UInt8
  ne_nil : bytes ≠ []
  bounded : bytes.length ≤ 4096

/-- How a wait for the descriptor ends. -/
inductive Wait where
  | late
  | failed
  | ready (chunk : Chunk)

def Wait.bytes : Wait → List UInt8
  | .ready chunk => chunk.bytes
  | _ => []

/-- The remainder, and the waits to come. After them there is only EOF. -/
structure Reader where
  remainder : List UInt8
  waits : List Wait

/-- All that has not been returned. -/
def Reader.bytes (r : Reader) : List UInt8 := r.remainder ++ r.waits.flatMap Wait.bytes

def readFrom (remainder : List UInt8) (waits : List Wait) : Option (List UInt8) × Reader :=
  match remainder.findIdx? (· == newline) with
  | some nl => (some (remainder.take nl), ⟨remainder.drop (nl + 1), waits⟩)
  | none => match waits with
    | [] => if remainder = [] then (none, ⟨[], []⟩) else (some remainder, ⟨[], []⟩)
    | .late :: waits => (none, ⟨remainder, waits⟩)
    | .failed :: waits => (none, ⟨remainder, waits⟩)
    | .ready chunk :: waits => readFrom (remainder ++ chunk.bytes) waits

def Reader.readBytes (r : Reader) : Option (List UInt8) × Reader := readFrom r.remainder r.waits

def Reader.readlineTimed (r : Reader) : Option (List Char) × Reader :=
  (r.readBytes.1.map Utf8Replace.decode, r.readBytes.2)

theorem find_newline {remainder : List UInt8} {nl : Nat} (h : remainder.findIdx? (· == newline) = some nl) :
    newline ∉ remainder.take nl ∧ remainder = remainder.take nl ++ newline :: remainder.drop (nl + 1) := by
  obtain ⟨hlt, hnl, hbefore⟩ := List.findIdx?_eq_some_iff_getElem.mp h
  constructor
  · intro hmem
    obtain ⟨j, hj, hget⟩ := List.mem_take_iff_getElem.mp hmem
    have hjnl : j < nl := (Nat.lt_min.mp hj).1
    exact hbefore j hjnl (beq_iff_eq.mpr hget)
  · have hdrop := List.drop_eq_getElem_cons hlt
    rw [beq_iff_eq.mp hnl] at hdrop
    rw [← hdrop, List.take_append_drop]

theorem find_none {remainder : List UInt8} (h : remainder.findIdx? (· == newline) = none) :
    newline ∉ remainder := by
  intro hmem
  exact absurd (List.findIdx?_eq_none_iff.mp h newline hmem) (by decide)

/-- What one call does to the bytes that have not been returned: it takes a line
with its newline, or at EOF what is left, or nothing. -/
inductive Reads : List UInt8 → Option (List UInt8) → List UInt8 → Prop where
  | line {line : List UInt8} (h : newline ∉ line) (after : List UInt8) :
      Reads (line ++ newline :: after) (some line) after
  | last {line : List UInt8} (h : newline ∉ line) (hne : line ≠ []) : Reads line (some line) []
  | nothing (bytes : List UInt8) : Reads bytes none bytes

theorem Reads.pieces_eq {before after : List UInt8} {line : Option (List UInt8)} (h : Reads before line after) :
    pieces before = line.toList ++ pieces after := by
  cases h with
  | line h after => exact pieces_line h after
  | last h hne => exact pieces_last h hne
  | nothing => rfl

theorem readFrom_reads (remainder : List UInt8) (waits : List Wait) :
    Reads (Reader.bytes ⟨remainder, waits⟩) (readFrom remainder waits).1 (readFrom remainder waits).2.bytes := by
  induction waits generalizing remainder with
  | nil =>
      rw [readFrom]
      split
      next nl hfind =>
        obtain ⟨hline, hremainder⟩ := find_newline hfind
        have hreads := Reads.line hline (remainder.drop (nl + 1))
        rw [← hremainder] at hreads
        simpa only [Reader.bytes, List.flatMap_nil, List.append_nil] using hreads
      next hfind =>
        by_cases hempty : remainder = []
        · rw [if_pos hempty, hempty]
          exact Reads.nothing []
        · rw [if_neg hempty]
          simpa only [Reader.bytes, List.flatMap_nil, List.append_nil] using Reads.last (find_none hfind) hempty
  | cons wait waits ih =>
      unfold readFrom
      split
      next nl hfind =>
        obtain ⟨hline, hremainder⟩ := find_newline hfind
        have hreads := Reads.line hline (remainder.drop (nl + 1) ++ (wait :: waits).flatMap Wait.bytes)
        rw [← List.cons_append, ← List.append_assoc, ← hremainder] at hreads
        exact hreads
      next hfind =>
        cases wait with
        | late => exact Reads.nothing _
        | failed => exact Reads.nothing _
        | ready chunk =>
            have hreads := ih (remainder ++ chunk.bytes)
            rwa [Reader.bytes, List.append_assoc] at hreads

namespace Reader

/-- The reader before call n. -/
def after (r : Reader) : Nat → Reader
  | 0 => r
  | n + 1 => (r.after n).readBytes.2

/-- The lines that the first calls have returned. -/
def returned (r : Reader) : Nat → List (List UInt8)
  | 0 => []
  | n + 1 => r.returned n ++ (r.after n).readBytes.1.toList

/-- Whatever the waits end in, the lines returned are the first pieces of the
stream, and the others are still there. -/
theorem pieces_run (r : Reader) (n : Nat) : pieces r.bytes = r.returned n ++ pieces (r.after n).bytes := by
  induction n with
  | zero => rfl
  | succ n ih =>
      have hstep := (readFrom_reads (r.after n).remainder (r.after n).waits).pieces_eq
      rw [ih, returned, after, List.append_assoc]
      exact congrArg (r.returned n ++ ·) hstep

/-- No wait is too long or fails. -/
def Steady (r : Reader) : Prop := ∀ wait ∈ r.waits, ∃ chunk, wait = .ready chunk

theorem readFrom_steady {remainder : List UInt8} {waits : List Wait} (h : Steady ⟨remainder, waits⟩) :
    (readFrom remainder waits).2.Steady ∧
      ((readFrom remainder waits).1 = none → Reader.bytes ⟨remainder, waits⟩ = []) := by
  induction waits generalizing remainder with
  | nil =>
      rw [readFrom]
      split
      next => exact ⟨h, fun hnone => absurd hnone (Option.some_ne_none _)⟩
      next hfind =>
        by_cases hempty : remainder = []
        · rw [if_pos hempty, hempty]
          exact ⟨fun _ hmem => absurd hmem List.not_mem_nil, fun _ => rfl⟩
        · rw [if_neg hempty]
          exact ⟨fun _ hmem => absurd hmem List.not_mem_nil, fun hnone => absurd hnone (Option.some_ne_none _)⟩
  | cons wait waits ih =>
      unfold readFrom
      split
      next => exact ⟨h, fun hnone => absurd hnone (Option.some_ne_none _)⟩
      next hfind =>
        obtain ⟨chunk, rfl⟩ := h wait List.mem_cons_self
        have hrest : Steady ⟨remainder ++ chunk.bytes, waits⟩ := fun w hw => h w (List.mem_cons_of_mem _ hw)
        have hread := ih hrest
        rwa [Reader.bytes, List.append_assoc] at hread

theorem readBytes_steady {r : Reader} (h : r.Steady) :
    r.readBytes.1 = (pieces r.bytes).head? ∧ pieces r.readBytes.2.bytes = (pieces r.bytes).tail := by
  have hreads := (readFrom_reads r.remainder r.waits).pieces_eq
  change pieces r.bytes = r.readBytes.1.toList ++ pieces r.readBytes.2.bytes at hreads
  cases hline : r.readBytes.1 with
  | some line =>
      rw [hreads, hline]
      exact ⟨rfl, rfl⟩
  | none =>
      have hempty : pieces r.bytes = [] := congrArg pieces ((readFrom_steady h).2 hline)
      rw [hline, Option.toList_none, List.nil_append] at hreads
      rw [← hreads, hempty]
      exact ⟨rfl, rfl⟩

theorem after_steady {r : Reader} (h : r.Steady) (n : Nat) :
    (r.after n).Steady ∧ pieces (r.after n).bytes = (pieces r.bytes).drop n := by
  induction n with
  | zero => exact ⟨h, rfl⟩
  | succ n ih =>
      obtain ⟨hsteady, hpieces⟩ := ih
      refine ⟨(readFrom_steady hsteady).1, ?_⟩
      rw [after, (readBytes_steady hsteady).2, hpieces, List.tail_drop]

theorem readBytes_after {r : Reader} (h : r.Steady) (n : Nat) : (r.after n).readBytes.1 = (pieces r.bytes)[n]? := by
  obtain ⟨hsteady, hpieces⟩ := after_steady h n
  rw [(readBytes_steady hsteady).1, hpieces, List.head?_drop]

/-- The chunks, then EOF. -/
def ofChunks (chunks : List Chunk) : Reader := ⟨[], chunks.map .ready⟩

theorem ofChunks_steady (chunks : List Chunk) : (ofChunks chunks).Steady := by
  intro wait hwait
  obtain ⟨chunk, -, hchunk⟩ := List.mem_map.mp hwait
  exact ⟨chunk, hchunk.symm⟩

theorem ofChunks_bytes (chunks : List Chunk) : (ofChunks chunks).bytes = chunks.flatMap Chunk.bytes := by
  rw [bytes, ofChunks, List.nil_append, List.flatMap_map]
  rfl

end Reader

/-- A stream has a first line, or is a piece without its newline, or is empty. -/
@[elab_as_elim]
theorem stream_induction {motive : List UInt8 → Prop} (nil : motive [])
    (last : ∀ line, newline ∉ line → line ≠ [] → motive line)
    (line : ∀ line rest, newline ∉ line → motive rest → motive (line ++ newline :: rest)) (stream : List UInt8) :
    motive stream := by
  induction hlength : stream.length using Nat.strongRecOn generalizing stream with
  | ind length ih =>
      cases hfind : stream.findIdx? (· == newline) with
      | none =>
          by_cases hempty : stream = []
          · rw [hempty]
            exact nil
          · exact last stream (find_none hfind) hempty
      | some nl =>
          obtain ⟨hline, hstream⟩ := find_newline hfind
          have hlt : (stream.drop (nl + 1)).length < length := by
            rw [← hlength, hstream, List.length_append, List.length_cons, List.drop_append]
            simp only [List.length_append, List.length_drop, List.length_take, List.length_cons]
            omega
          rw [hstream]
          exact line _ _ hline (ih _ hlt _ rfl)

/-- The stream with a newline behind its last piece. -/
def terminated (stream : List UInt8) : List UInt8 :=
  if stream = [] ∨ stream.getLast? = some newline then stream else stream ++ [newline]

theorem terminated_line (line rest : List UInt8) :
    terminated (line ++ newline :: rest) = line ++ newline :: terminated rest := by
  have hne : line ++ newline :: rest ≠ [] := List.append_ne_nil_of_right_ne_nil _ (List.cons_ne_nil _ _)
  have hlast : (line ++ newline :: rest).getLast? = some newline ↔ rest = [] ∨ rest.getLast? = some newline := by
    rw [List.getLast?_append_of_ne_nil _ (List.cons_ne_nil _ _), List.getLast?_cons]
    cases hrest : rest.getLast? with
    | none => simp [List.getLast?_eq_none_iff.mp hrest]
    | some c =>
        have hsome : rest ≠ [] := fun h => by rw [h] at hrest; cases hrest
        simp [hsome]
  rw [terminated, terminated]
  by_cases hended : rest = [] ∨ rest.getLast? = some newline
  · rw [if_pos (.inr (hlast.mpr hended)), if_pos hended]
  · rw [if_neg (fun h => hended (hlast.mp (h.resolve_left hne))), if_neg hended, List.append_assoc, List.cons_append]

theorem newline_notMem_of_mem_pieces {stream piece : List UInt8} (h : piece ∈ pieces stream) : newline ∉ piece := by
  induction stream using stream_induction with
  | nil => exact absurd h List.not_mem_nil
  | last line hline hne =>
      rw [pieces_last hline hne] at h
      rwa [List.mem_singleton.mp h]
  | line line rest hline ih =>
      rw [pieces_line hline] at h
      rcases List.mem_cons.mp h with hfirst | hrest
      · rwa [hfirst]
      · exact ih hrest

/-- The pieces hold every byte of the stream once, in order. -/
theorem flatMap_pieces (stream : List UInt8) : (pieces stream).flatMap (· ++ [newline]) = terminated stream := by
  induction stream using stream_induction with
  | nil => rfl
  | last line hline hne =>
      have hlast : ¬ (line = [] ∨ line.getLast? = some newline) :=
        fun h => h.elim hne (fun hnl => hline (List.mem_of_getLast? hnl))
      rw [pieces_last hline hne, terminated, if_neg hlast, List.flatMap_singleton]
  | line line rest hline ih =>
      rw [pieces_line hline, List.flatMap_cons, ih, terminated_line, List.append_assoc, List.singleton_append]

/-- However a stream is cut into reads, the calls return its lines in order and
then None, and no byte of it is lost or comes twice. -/
theorem lines_reassembled (chunks : List Chunk) :
    let stream := chunks.flatMap Chunk.bytes
    let reader := Reader.ofChunks chunks
    (∀ n, (reader.after n).readlineTimed.1 = (pieces stream)[n]?.map Utf8Replace.decode) ∧
    (∀ n, (reader.after n).readBytes.1 = (pieces stream)[n]?) ∧
    (∀ piece ∈ pieces stream, newline ∉ piece) ∧
    (pieces stream).flatMap (· ++ [newline]) = terminated stream ∧
    (∀ n, pieces stream = reader.returned n ++ pieces (reader.after n).bytes) := by
  intro stream reader
  have hlines : ∀ n, (reader.after n).readBytes.1 = (pieces stream)[n]? := fun n => by
    rw [Reader.readBytes_after (Reader.ofChunks_steady chunks), Reader.ofChunks_bytes]
  refine ⟨fun n => ?_, hlines, fun _ => newline_notMem_of_mem_pieces, flatMap_pieces stream, fun n => ?_⟩
  · rw [Reader.readlineTimed, hlines]
  · have hrun := reader.pieces_run n
    rwa [Reader.ofChunks_bytes] at hrun

/-- A line, an empty one, and one without its newline. -/
example : pieces [0x61, 0x0A, 0x0A, 0x62] = [[0x61], [], [0x62]] := by decide

end Blockchecks.LineReader
