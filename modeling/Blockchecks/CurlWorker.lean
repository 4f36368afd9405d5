import Blockchecks.Json
import Blockchecks.Runs
import Blockchecks.StrategyText
import Mathlib.Logic.Function.Basic

namespace Blockchecks.CurlWorker

open Json Runs StrategyText

/-- The members of a Python dict in their order. -/
abbrev Members := List (String × Value)

/-- _FAIL with an error. -/
def failDict (error : String) : Value :=
  .object [("success", .bool false), ("http_code", .number (.int 0)), ("latency_ms", .number (.int 0)),
    ("content_len", .number (.int 0)), ("content_ok", .bool false), ("throttled", .bool false),
    ("read_rate_bps", .number (.int 0)), ("error", .str error)]

def FailureShaped (v : Value) : Prop := ∃ error, v = failDict error

/-- From the first opening to the last closing brace, nothing where there is no
such pair. -/
def braced (text : List Char) : List Char :=
  ((text.dropWhile (· ≠ '{')).reverse.dropWhile (· ≠ '}')).reverse

def loadsProbeJson (out : List Char) : Value :=
  let text := strip out
  match loads text with
  | some v => v
  | none => match loads (braced text) with
    | some v => v
    | none => failDict (String.ofList ("parse: ".toList ++ text.take 100))

/-- The worker process with its two pipes. A request line carries the number of
the invoke that wrote it. -/
structure Process where
  alive : Bool := true
  stdin : List (Nat × List Char) := []
  stdout : List Char := []

/-- What the worker has put on its stdout: a response, as far as it was written,
or a line of some other origin. -/
inductive Line where
  | response (request : Nat) (members : Members) (written : Nat)
  | stray (text : List Char)

/-- What _emit prints. -/
def responseLine (members : Members) : List Char := dumps none (.object members) ++ ['\n']

def Line.text : Line → List Char
  | .response _ members written => (responseLine members).take written
  | .stray text => text ++ ['\n']

inductive Pc where
  | idle
  | writing
  | reading
  deriving DecidableEq

/-- A _PersistentCurlWorker. The calls of invoke come one after another, the k-th
result is that of the k-th call. The lines not yet taken from the worker and
the responses it has produced are kept beside. -/
structure State where
  proc : Option Process := none
  buf : List Char := []
  pc : Pc := .idle
  results : List Value := []
  unread : List Line := []
  responses : Nat → Option Members := fun _ => none

namespace State

variable (s : State)

def kill : State := { s with proc := none, buf := [], unread := [] }

def start : State := { s.kill with proc := some {} }

def answer (v : Value) : State := { s with pc := .idle, results := s.results ++ [v] }

/-- The worker puts a line out. -/
def emit (p : Process) (line : Line) : State :=
  { s with
    proc := some { p with stdout := p.stdout ++ line.text }
    unread := s.unread ++ [line] }

def produce (request : Nat) (members : Members) : State :=
  { s with responses := Function.update s.responses request (some members) }

end State

/-- The steps of invoke, and what the worker does meanwhile. What a worker
answers is a dict, also where a request is no JSON or its probe raises; a blank
line it skips. It can die in the middle of a response. -/
inductive Action where
  | invoke
  | write (payload : Members) (ok : Bool) (error : String)
  | chunk (n : Nat)
  | takeLine
  | eof
  | giveUp (error : String)
  | respond (members : Members)
  | skipBlank
  | dieWriting (members : Members) (written : Nat)
  | stray (text : List Char)
  | die

/-- The worker is alive and about to answer a request. -/
def asked (s : State) : Option (Process × Nat × List Char) :=
  s.proc.bind (fun p => match p.alive, p.stdin with
    | true, (request, raw) :: rest => some ({ p with stdin := rest }, request, raw)
    | _, _ => none)

def step (s : State) : Action → Option State
  | .invoke =>
      if s.pc ≠ .idle then none
      else match s.proc with
        | some p => if p.alive then some { s with pc := .writing } else some { s.start with pc := .writing }
        | none => some { s.start with pc := .writing }
  | .write payload ok error => match s.pc, s.proc with
      | .writing, some p =>
          if p.alive && ok then
            some { s with
              proc := some { p with stdin := p.stdin ++ [(s.results.length, dumps none (.object payload))] }
              pc := .reading }
          else some (s.kill.answer (failDict (String.ofList (("worker write: ".toList ++ error.toList).take 120))))
      | _, _ => none
  | .chunk n => match s.pc, s.proc with
      | .reading, some p =>
          if '\n' ∉ s.buf ∧ 0 < n ∧ n ≤ 4096 ∧ p.stdout ≠ [] then
            some { s with
              proc := some { p with stdout := p.stdout.drop n }
              buf := s.buf ++ p.stdout.take n }
          else none
      | _, _ => none
  | .takeLine =>
      if s.pc = .reading ∧ '\n' ∈ s.buf then
        some ({ s with
          buf := (s.buf.dropWhile (· ≠ '\n')).drop 1
          unread := s.unread.drop 1 }.answer (loadsProbeJson (s.buf.takeWhile (· ≠ '\n'))))
      else none
  | .eof => match s.pc, s.proc with
      | .reading, some p =>
          if '\n' ∉ s.buf ∧ s.buf ≠ [] ∧ p.alive = false ∧ p.stdout = [] then
            some ({ s with buf := [], unread := s.unread.drop 1 }.answer (loadsProbeJson s.buf))
          else none
      | _, _ => none
  | .giveUp error =>
      if s.pc = .reading ∧ '\n' ∉ s.buf then some (s.kill.answer (failDict error)) else none
  | .respond members => match asked s with
      | some (p, request, raw) =>
          if strip raw ≠ [] then
            some ((s.produce request members).emit p
              (.response request members (responseLine members).length))
          else none
      | none => none
  | .skipBlank => match asked s with
      | some (p, _, raw) => if strip raw = [] then some { s with proc := some p } else none
      | none => none
  | .dieWriting members written => match asked s with
      | some (p, request, raw) =>
          if strip raw ≠ [] ∧ written < (responseLine members).length then
            some ((s.produce request members).emit { p with alive := false }
              (.response request members written))
          else none
      | none => none
  | .stray text => match s.proc with
      | some p => if p.alive ∧ '\n' ∉ text then some (s.emit p (.stray text)) else none
      | none => none
  | .die => s.proc.map (fun p => { s with proc := some { p with alive := false } })

end Blockchecks.CurlWorker
