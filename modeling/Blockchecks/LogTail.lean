import Blockchecks.LineSplit
import Blockchecks.TextFile
import Blockchecks.Utf8Replace

namespace Blockchecks.LogTail

open ExportConf Utf8Replace

def logSources : List String := ["python", "campaign", "nfqws2"]

/-- Where the log files are, what they hold, and the substitutions that a raw tail leaves out. -/
structure LogDir where
  pathForSource : String → Option String
  readBytes : String → Option (List UInt8)
  stripAnsi : List Char → List Char
  redactLine : List Char → List Char

structure TailReply where
  ok : Bool
  error : Option String
  source : String
  path : String
  lines : List (List Char)
  offset : Nat
  truncated : Bool

def splitlines (text : List Char) : List (List Char) := LineSplit.lines isLineBreak '\r' '\n' text

def lastLines (tail : Int) (lines : List (List Char)) : List (List Char) :=
  if 0 < tail then lines.drop (lines.length - tail.toNat) else lines

/-- What a tail makes of the bytes of a file. -/
def tailData (dir : LogDir) (source path : String) (tail offset : Int) (strip raw : Bool) (bytes : List UInt8) :
    TailReply :=
  let truncated := decide (offset > bytes.length)
  let start := if truncated then 0 else (max 0 offset).toNat
  let data := bytes.drop start
  let lines := lastLines tail (splitlines (decode data))
  let lines := if strip then lines.map dir.stripAnsi else lines
  let lines := if source == "nfqws2" && !raw then lines.map dir.redactLine else lines
  { ok := true, error := none, source, path, lines, offset := start + data.length, truncated }

def logTail (dir : LogDir) (source : String) (tail offset : Int) (strip raw : Bool) : TailReply :=
  if source ∉ logSources then
    { ok := false, error := some ("invalid source: " ++ source), source, path := "", lines := [], offset := 0,
      truncated := false }
  else match dir.pathForSource source with
    | none => { ok := true, error := none, source, path := "", lines := [], offset := 0, truncated := false }
    | some path =>
        match dir.readBytes path with
        | none => { ok := true, error := none, source, path, lines := [], offset := 0, truncated := false }
        | some bytes => tailData dir source path tail offset strip raw bytes

/-- What happens to a log file that is never rotated: a writer appends to it, a reader asks
for what it has not seen. -/
inductive Op where
  | append (bytes : List UInt8)
  | poll

/-- The file, the offset of the last reply, and the lines of all replies. -/
structure Session where
  file : Option (List UInt8)
  offset : Nat
  lines : List (List Char)

/-- The directory in which the source has one file. -/
def LogDir.holding (dir : LogDir) (path : String) (file : Option (List UInt8)) : LogDir :=
  { dir with readBytes := fun p => if p = path then file else dir.readBytes p }

def step (dir : LogDir) (source path : String) (session : Session) : Op → Session
  | .append bytes => { session with file := some (session.file.getD [] ++ bytes) }
  | .poll =>
      let reply := logTail (dir.holding path session.file) source 0 session.offset false true
      { session with offset := reply.offset, lines := session.lines ++ reply.lines }

def run (dir : LogDir) (source path : String) (session : Session) (ops : List Op) : Session :=
  ops.foldl (step dir source path) session

/-- Before the first byte, and before the first request. -/
def begun : Session := ⟨none, 0, []⟩

variable {dir : LogDir} {source path : String} {session : Session} {seen unread : List UInt8}

/-- From an offset within the file, a raw and unbounded tail answers with the lines of the bytes behind it. -/
theorem tailData_unread (dir : LogDir) (source path : String) (seen unread : List UInt8) :
    tailData dir source path 0 seen.length false true (seen ++ unread) =
      { ok := true, error := none, source, path, lines := splitlines (decode unread),
        offset := (seen ++ unread).length, truncated := false } := by
  have hwithin : decide ((seen.length : Int) > (seen ++ unread).length) = false := by
    rw [decide_eq_false_iff_not, List.length_append]
    omega
  have hstart : (max 0 (seen.length : Int)).toNat = seen.length := by omega
  have hlines : lastLines 0 (splitlines (decode unread)) = splitlines (decode unread) := if_neg (by decide)
  rw [tailData]
  simp only [hwithin, hstart, hlines, List.drop_left, Bool.false_eq_true, if_false, Bool.not_true, Bool.and_false]
  rw [List.length_append]

theorem poll_unread (hsource : source ∈ logSources) (hpath : dir.pathForSource source = some path)
    (hfile : session.file.getD [] = seen ++ unread) (hoffset : session.offset = seen.length) :
    step dir source path session .poll =
      ⟨session.file, (seen ++ unread).length, session.lines ++ splitlines (decode unread)⟩ := by
  have hpath' : (dir.holding path session.file).pathForSource source = some path := hpath
  have hread : (dir.holding path session.file).readBytes path = session.file := if_pos rfl
  rw [step, logTail, if_neg (not_not_intro hsource)]
  simp only [hpath', hread]
  cases hf : session.file with
  | none =>
      rw [hf] at hfile
      obtain ⟨rfl, rfl⟩ := List.append_eq_nil_iff.mp hfile.symm
      rfl
  | some bytes =>
      rw [hf] at hfile
      obtain rfl : bytes = seen ++ unread := hfile
      simp only [hoffset, tailData_unread]

/-- The bytes that the operations append. -/
def appended : List Op → List UInt8
  | [] => []
  | .append bytes :: ops => bytes ++ appended ops
  | .poll :: ops => appended ops

/-- The lines that the requests answer with, when some bytes are unread already. -/
def polledLines (unread : List UInt8) : List Op → List (List Char)
  | [] => []
  | .append bytes :: ops => polledLines (unread ++ bytes) ops
  | .poll :: ops => splitlines (decode unread) ++ polledLines [] ops

/-- In a run, every request answers with the lines of what was appended since the one before. -/
theorem run_lines (hsource : source ∈ logSources) (hpath : dir.pathForSource source = some path) (ops : List Op)
    (hfile : session.file.getD [] = seen ++ unread) (hoffset : session.offset = seen.length) :
    (run dir source path session ops).lines = session.lines ++ polledLines unread ops := by
  induction ops generalizing session seen unread with
  | nil => exact (List.append_nil _).symm
  | cons op ops ih =>
      rw [run, List.foldl_cons]
      cases op with
      | append bytes =>
          have hfile' : (step dir source path session (.append bytes)).file.getD [] = seen ++ (unread ++ bytes) := by
            rw [← List.append_assoc, ← hfile]
            rfl
          exact ih hfile' hoffset
      | poll =>
          rw [poll_unread hsource hpath hfile hoffset, polledLines, ← List.append_assoc]
          have hfile' : (Session.mk session.file (seen ++ unread).length
              (session.lines ++ splitlines (decode unread))).file.getD [] = (seen ++ unread) ++ [] := by
            rw [hfile, List.append_nil]
          exact ih hfile' rfl

theorem run_file (dir : LogDir) (source path : String) (session : Session) (ops : List Op) :
    (run dir source path session ops).file.getD [] = session.file.getD [] ++ appended ops := by
  induction ops generalizing session with
  | nil => exact (List.append_nil _).symm
  | cons op ops ih =>
      rw [run, List.foldl_cons]
      cases op with
      | append bytes =>
          rw [appended, ← List.append_assoc]
          exact ih _
      | poll => exact ih _

end Blockchecks.LogTail
