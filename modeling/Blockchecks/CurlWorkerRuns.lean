import Blockchecks.CurlWorker
import Blockchecks.JsonPrefix
import Mathlib.Data.List.DropRight

namespace Blockchecks.CurlWorkerRuns

open CurlWorker Json Runs StrategyText

section responses

variable {members : Members} {front back : List Char}

theorem dumps_braces (members : Members) :
    ∃ body, dumps none (.object members) = '{' :: (body ++ ['}']) := by
  cases members with
  | nil => exact ⟨[], by rw [dumps, dumpAt]; rfl⟩
  | cons m members =>
      refine ⟨stringText m.1 ++ (':' :: ' ' :: (dumpAt none 1 m.2 ++ dumpMembers none 1 members)), ?_⟩
      rw [dumps, dumpAt]
      simp [newline]

theorem strip_prefix (hfront : ∀ c ∈ front.head?, c = '{') : strip front <+: front := by
  have hkeep : front.dropWhile isSpace = front := by
    cases front with
    | nil => rfl
    | cons c cs =>
        rw [hfront c rfl, List.dropWhile_cons, if_neg (by decide)]
  rw [strip, hkeep]
  exact List.rdropWhile_prefix ..

theorem braced_of_start (hfront : ∀ c ∈ front.head?, c = '{') : braced front <+: front := by
  have hkeep : front.dropWhile (· ≠ '{') = front := by
    cases front with
    | nil => rfl
    | cons c cs =>
        rw [hfront c rfl, List.dropWhile_cons, if_neg (by decide)]
  rw [braced, hkeep]
  exact List.rdropWhile_prefix ..

theorem strip_dumps (members : Members) :
    strip (dumps none (.object members)) = dumps none (.object members) := by
  obtain ⟨body, hbody⟩ := dumps_braces members
  have hfirst : isSpace '{' = false := by decide
  have hlast : isSpace '}' = false := by decide
  rw [hbody, strip, List.dropWhile_cons, hfirst]
  simp [hlast]

theorem strip_dumps_ne_nil (members : Members) : strip (dumps none (.object members)) ≠ [] := by
  obtain ⟨body, hbody⟩ := dumps_braces members
  rw [strip_dumps, hbody]
  exact List.cons_ne_nil _ _

theorem loadsProbeJson_dumps (members : Members) :
    loadsProbeJson (dumps none (.object members)) = .object members := by
  simp only [loadsProbeJson, strip_dumps, loads_dumps]

/-- A response that was cut short reads as a failure. -/
theorem loadsProbeJson_cut (hdumps : dumps none (.object members) = front ++ back) (hback : back ≠ []) :
    FailureShaped (loadsProbeJson front) := by
  have hhead : ∀ {piece : List Char}, piece <+: front → ∀ c ∈ piece.head?, c = '{' := by
    rintro piece ⟨more, rfl⟩ c hc
    obtain ⟨body, hbody⟩ := dumps_braces members
    cases piece with
    | nil => cases hc
    | cons d ds =>
        obtain rfl := Option.some.inj hc
        rw [hbody] at hdumps
        exact (List.cons.inj hdumps).1.symm
  have hnone : ∀ {piece : List Char}, piece <+: front → loads piece = none := by
    rintro piece ⟨more, rfl⟩
    refine loads_cut (hdumps.trans (List.append_assoc ..)) ?_
    simp [hback]
  have hstrip := strip_prefix (hhead (List.prefix_refl front))
  have hbraced := (braced_of_start (hhead hstrip)).trans hstrip
  refine ⟨String.ofList ("parse: ".toList ++ (strip front).take 100), ?_⟩
  simp only [loadsProbeJson, hnone hstrip, hnone hbraced]

end responses

namespace Line

/-- The line was written to its end. -/
def Complete : Line → Prop
  | .response _ members written => written = (responseLine members).length
  | .stray text => '\n' ∉ text

/-- The worker died in the middle of the response. -/
def Cut : Line → Prop
  | .response _ members written => written < (responseLine members).length
  | .stray _ => False

def request : Line → Option Nat
  | .response request _ _ => some request
  | .stray _ => none

end Line

/-- Only the last line of a dead worker can be cut. -/
def Written (alive : Bool) : List Line → Prop
  | [] => True
  | line :: lines => (Line.Complete line ∧ Written alive lines) ∨
      (Line.Cut line ∧ lines = [] ∧ alive = false)

section lines

variable {line : Line} {lines : List Line} {alive : Bool}

theorem Line.Complete.text (h : Line.Complete line) :
    ∃ content, line.text = content ++ ['\n'] ∧ '\n' ∉ content := by
  cases line with
  | response request members written =>
      refine ⟨dumps none (.object members), ?_, newline_not_mem_dumps _⟩
      rw [CurlWorker.Line.text, show written = _ from h, List.take_length, responseLine]
  | stray text => exact ⟨text, rfl, h⟩

theorem Line.Cut.newline_not_mem (h : Line.Cut line) : '\n' ∉ line.text := by
  cases line with
  | response request members written =>
      have hshort : written ≤ (dumps none (.object members)).length := by
        have hcut : written < (responseLine members).length := h
        rw [responseLine, List.length_append, List.length_singleton] at hcut
        omega
      rw [CurlWorker.Line.text, responseLine, List.take_append_of_le_length hshort]
      exact fun hmem => newline_not_mem_dumps _ (List.mem_of_mem_take hmem)
  | stray => cases h

theorem Written.append_complete (h : Written true lines) (hline : Line.Complete line) (alive : Bool) :
    Written alive (lines ++ [line]) := by
  induction lines with
  | nil => exact Or.inl ⟨hline, trivial⟩
  | cons first lines ih =>
      rcases h with ⟨hfirst, hrest⟩ | ⟨_, _, hdead⟩
      · exact Or.inl ⟨hfirst, ih hrest⟩
      · cases hdead

theorem Written.append_cut (h : Written true lines) (hline : Line.Cut line) :
    Written false (lines ++ [line]) := by
  induction lines with
  | nil => exact Or.inr ⟨hline, rfl, rfl⟩
  | cons first lines ih =>
      rcases h with ⟨hfirst, hrest⟩ | ⟨_, _, hdead⟩
      · exact Or.inl ⟨hfirst, ih hrest⟩
      · cases hdead

theorem Written.die (h : Written alive lines) : Written false lines := by
  induction lines with
  | nil => trivial
  | cons first lines ih =>
      rcases h with ⟨hfirst, hrest⟩ | ⟨hfirst, hlast, _⟩
      · exact Or.inl ⟨hfirst, ih hrest⟩
      · exact Or.inr ⟨hfirst, hlast, rfl⟩

/-- A buffer with a newline begins with the first line that is written there. -/
theorem takeWhile_line {buf out content rest : List Char} (h : buf ++ out = content ++ '\n' :: rest)
    (hcontent : '\n' ∉ content) (hbuf : '\n' ∈ buf) :
    buf.takeWhile (· ≠ '\n') = content ∧ (buf.dropWhile (· ≠ '\n')).drop 1 ++ out = rest := by
  induction content generalizing buf with
  | nil =>
      cases buf with
      | nil => cases hbuf
      | cons c buf =>
          obtain ⟨rfl, hrest⟩ := List.cons.inj h
          exact ⟨by simp, by simpa using hrest⟩
  | cons d content ih =>
      cases buf with
      | nil => cases hbuf
      | cons c buf =>
          obtain ⟨rfl, hrest⟩ := List.cons.inj h
          have hc : c ≠ '\n' := fun he => hcontent (he ▸ List.mem_cons_self)
          have hmem : '\n' ∈ buf := (List.mem_cons.mp hbuf).resolve_left (Ne.symm hc)
          obtain ⟨htake, hdrop⟩ := ih hrest (fun hm => hcontent (List.mem_cons_of_mem c hm)) hmem
          have hp : decide (c ≠ '\n') = true := decide_eq_true hc
          simp only [List.takeWhile_cons, List.dropWhile_cons, hp, if_true]
          exact ⟨congrArg _ htake, hdrop⟩

end lines

/-- The line that an invoke takes is a response, not one that the worker process
wrote besides. -/
def Unmixed (s : State) : Action → Prop
  | .takeLine | .eof => ∀ text, s.unread.head? ≠ some (.stray text)
  | _ => True

/-- The requests that the worker has been given and whose answer has not been
taken. -/
def pending (p : Process) (unread : List Line) : List Nat :=
  unread.filterMap Line.request ++ p.stdin.map Prod.fst

/-- What the pipes of a worker hold. -/
structure Piped (s : State) (p : Process) : Prop where
  stream : s.buf ++ p.stdout = s.unread.flatMap CurlWorker.Line.text
  written : Written p.alive s.unread
  pending : pending p s.unread = if s.pc = .reading then [s.results.length] else []
  unblank : ∀ request ∈ p.stdin, strip request.2 ≠ []
  produced : ∀ k members written, .response k members written ∈ s.unread →
    s.responses k = some members

/-- The k-th result answers the k-th request. -/
def Answered (s : State) : Prop :=
  ∀ k v, s.results[k]? = some v →
    FailureShaped v ∨ ∃ members, s.responses k = some members ∧ v = .object members

structure Inv (s : State) : Prop where
  running : s.pc ≠ .idle → s.proc ≠ none
  piped : ∀ p, s.proc = some p → Piped s p
  answered : Answered s

variable {s t : State} {p : Process}

theorem initial_inv : Inv {} := by
  refine ⟨fun h => absurd rfl h, ?_, ?_⟩
  · rintro p ⟨⟩
  · rintro k v ⟨⟩

theorem Inv.not_pending (h : Inv s) (hp : s.proc = some p) (hpc : s.pc ≠ .reading) :
    s.unread.filterMap Line.request = [] ∧ p.stdin = [] := by
  have hpending := (h.piped p hp).pending
  rw [if_neg hpc, CurlWorkerRuns.pending, List.append_eq_nil_iff, List.map_eq_nil_iff] at hpending
  exact hpending

/-- An answer to the call that is going on. -/
theorem Answered.answer (h : Answered s) {v : Value}
    (hv : FailureShaped v ∨ ∃ members, s.responses s.results.length = some members ∧ v = .object members) :
    Answered (s.answer v) := by
  intro k w hk
  change (s.results ++ [v])[k]? = some w at hk
  rw [List.getElem?_append] at hk
  split at hk
  next => exact h k w hk
  next hlast =>
    have hzero : k = s.results.length := by
      have hlt := (List.getElem?_eq_some_iff.mp hk).1
      rw [List.length_singleton] at hlt
      omega
    subst hzero
    rw [Nat.sub_self] at hk
    obtain rfl := Option.some.inj hk
    exact hv

theorem Inv.kill (h : Inv s) (error : String) : Inv (s.kill.answer (failDict error)) := by
  refine ⟨fun hpc => absurd rfl hpc, ?_, ?_⟩
  · rintro p ⟨⟩
  · exact Answered.answer (s := s.kill) h.answered (Or.inl ⟨error, rfl⟩)

theorem Inv.start (h : Inv s) : Inv { s.start with pc := .writing } := by
  refine ⟨fun _ => Option.some_ne_none _, ?_, h.answered⟩
  rintro p ⟨⟩
  refine ⟨rfl, trivial, rfl, ?_, ?_⟩
  · intro request hrequest
    cases hrequest
  · intro k members written hline
    cases hline

theorem Inv.alive (h : Inv s) (hp : s.proc = some p) (hpc : s.pc = .idle) :
    Inv { s with pc := .writing } := by
  have hpiped := h.piped p hp
  refine ⟨fun _ hnone => Option.some_ne_none p (hp.symm.trans hnone), ?_, h.answered⟩
  intro q hq
  obtain rfl := Option.some.inj (hp.symm.trans hq)
  refine ⟨hpiped.stream, hpiped.written, ?_, hpiped.unblank, hpiped.produced⟩
  rw [hpiped.pending, hpc]
  rfl

theorem Inv.write (h : Inv s) (hp : s.proc = some p) (hpc : s.pc = .writing) (payload : Members) :
    Inv { s with
      proc := some { p with stdin := p.stdin ++ [(s.results.length, dumps none (.object payload))] }
      pc := .reading } := by
  have hpiped := h.piped p hp
  obtain ⟨hlines, hstdin⟩ := h.not_pending hp (by rw [hpc]; decide)
  refine ⟨fun _ => Option.some_ne_none _, ?_, h.answered⟩
  rintro q ⟨⟩
  refine ⟨hpiped.stream, hpiped.written, ?_, ?_, hpiped.produced⟩
  · rw [pending, hlines, hstdin]
    rfl
  · intro request hrequest
    rw [hstdin] at hrequest
    obtain rfl := List.mem_singleton.mp hrequest
    exact strip_dumps_ne_nil payload

theorem Inv.chunk (h : Inv s) (hp : s.proc = some p) (n : Nat) :
    Inv { s with
      proc := some { p with stdout := p.stdout.drop n }
      buf := s.buf ++ p.stdout.take n } := by
  have hpiped := h.piped p hp
  refine ⟨fun _ => Option.some_ne_none _, ?_, h.answered⟩
  rintro q ⟨⟩
  refine ⟨?_, hpiped.written, hpiped.pending, hpiped.unblank, hpiped.produced⟩
  dsimp only
  rw [List.append_assoc, List.take_append_drop]
  exact hpiped.stream

/-- An invoke takes a response, whole or cut. -/
theorem Inv.take (h : Inv s) (hp : s.proc = some p) (hpc : s.pc = .reading) {k written : Nat}
    {members : Members} {lines : List Line} (hunread : s.unread = .response k members written :: lines)
    {buf : List Char} (hbuf : buf ++ p.stdout = lines.flatMap CurlWorker.Line.text)
    (hlines : Written p.alive lines) {v : Value} (hv : FailureShaped v ∨ v = .object members) :
    Inv ({ s with buf := buf, unread := s.unread.drop 1 }.answer v) := by
  have hpiped := h.piped p hp
  have hpending := hpiped.pending
  rw [if_pos hpc, pending, hunread] at hpending
  obtain ⟨hk, hrest⟩ := List.cons.inj hpending
  refine ⟨fun hne => absurd rfl hne, ?_, ?_⟩
  · intro q hq
    obtain rfl := Option.some.inj (hp.symm.trans hq)
    refine ⟨?_, ?_, ?_, hpiped.unblank, ?_⟩
    · simpa [State.answer, hunread] using hbuf
    · simpa [State.answer, hunread] using hlines
    · simpa [State.answer, hunread, pending] using hrest
    · intro j others length hline
      exact hpiped.produced j others length (List.mem_of_mem_drop hline)
  · refine Answered.answer (s := { s with buf := buf, unread := s.unread.drop 1 }) h.answered ?_
    refine hv.imp id (fun heq => ⟨members, ?_, heq⟩)
    change s.responses s.results.length = some members
    rw [← hk]
    exact hpiped.produced k members written (by rw [hunread]; exact List.mem_cons_self)

/-- What is taken is a response. -/
theorem Inv.unread_cases (h : Inv s) (hp : s.proc = some p) (hbuf : s.buf ≠ [])
    (hunmixed : ∀ text, s.unread.head? ≠ some (.stray text)) :
    ∃ k members written lines, s.unread = .response k members written :: lines ∧
      ((written = (responseLine members).length ∧ Written p.alive lines) ∨
        (written < (responseLine members).length ∧ lines = [])) := by
  have hpiped := h.piped p hp
  have hwritten := hpiped.written
  cases hunread : s.unread with
  | nil =>
      have hstream := hpiped.stream
      rw [hunread] at hstream
      exact absurd (List.append_eq_nil_iff.mp hstream).1 hbuf
  | cons line lines =>
      rw [hunread] at hwritten
      cases line with
      | stray text => exact absurd (by rw [hunread]; rfl) (hunmixed text)
      | response k members written =>
          exact ⟨k, members, written, lines, rfl, hwritten.imp id (fun hcut => ⟨hcut.1, hcut.2.1⟩)⟩

theorem Inv.takeLine (h : Inv s) (hpc : s.pc = .reading) (hnewline : '\n' ∈ s.buf)
    (hunmixed : ∀ text, s.unread.head? ≠ some (.stray text)) :
    Inv ({ s with
      buf := (s.buf.dropWhile (· ≠ '\n')).drop 1
      unread := s.unread.drop 1 }.answer (loadsProbeJson (s.buf.takeWhile (· ≠ '\n')))) := by
  obtain ⟨p, hp⟩ := Option.ne_none_iff_exists'.mp (h.running (by rw [hpc]; decide))
  have hstream := (h.piped p hp).stream
  obtain ⟨k, members, written, lines, hunread, ⟨hwhole, hlines⟩ | ⟨hcut, hlast⟩⟩ :=
    h.unread_cases hp (List.ne_nil_of_mem hnewline) hunmixed
  · have htext : CurlWorker.Line.text (.response k members written) =
        dumps none (.object members) ++ ['\n'] := by
      rw [CurlWorker.Line.text, hwhole, List.take_length, responseLine]
    rw [hunread, List.flatMap_cons, htext, List.append_assoc, List.singleton_append] at hstream
    obtain ⟨htake, hdrop⟩ := takeWhile_line hstream (newline_not_mem_dumps _) hnewline
    refine h.take hp hpc hunread hdrop hlines (Or.inr ?_)
    rw [htake, loadsProbeJson_dumps]
  · have hnone := @Line.Cut.newline_not_mem (.response k members written) hcut
    rw [hunread, hlast, List.flatMap_cons, List.flatMap_nil, List.append_nil] at hstream
    rw [← hstream, List.mem_append, not_or] at hnone
    exact absurd hnewline hnone.1

/-- What a dead worker has left of a line is its response or a failure. -/
theorem Inv.eof (h : Inv s) (hp : s.proc = some p) (hpc : s.pc = .reading) (hnewline : '\n' ∉ s.buf)
    (hbuf : s.buf ≠ []) (hend : p.stdout = []) (hunmixed : ∀ text, s.unread.head? ≠ some (.stray text)) :
    Inv ({ s with buf := [], unread := s.unread.drop 1 }.answer (loadsProbeJson s.buf)) := by
  have hstream := (h.piped p hp).stream
  rw [hend, List.append_nil] at hstream
  obtain ⟨k, members, written, lines, hunread, ⟨hwhole, hlines⟩ | ⟨hcut, hlast⟩⟩ :=
    h.unread_cases hp hbuf hunmixed
  · rw [hunread, List.flatMap_cons, CurlWorker.Line.text, hwhole, List.take_length,
      responseLine] at hstream
    exact absurd (by rw [hstream]; simp) hnewline
  · subst hlast
    have hshort : written ≤ (dumps none (.object members)).length := by
      rw [responseLine, List.length_append, List.length_singleton] at hcut
      omega
    rw [hunread, List.flatMap_cons, List.flatMap_nil, List.append_nil, CurlWorker.Line.text,
      responseLine, List.take_append_of_le_length hshort] at hstream
    refine h.take hp hpc hunread (by rw [hend]; rfl) trivial ?_
    rw [hstream]
    have hsplit := (List.take_append_drop written (dumps none (.object members))).symm
    by_cases hdrop : (dumps none (.object members)).drop written = []
    · rw [hdrop, List.append_nil] at hsplit
      rw [← hsplit]
      exact Or.inr (loadsProbeJson_dumps members)
    · exact Or.inl (loadsProbeJson_cut hsplit hdrop)

theorem asked_eq {q : Process} {k : Nat} {raw : List Char} (h : asked s = some (q, k, raw)) :
    s.proc = some { q with stdin := (k, raw) :: q.stdin } ∧ q.alive = true := by
  obtain ⟨p, hp, hmatch⟩ := Option.bind_eq_some_iff.mp h
  obtain ⟨alive, stdin, stdout⟩ := p
  dsimp only at hmatch
  split at hmatch
  next =>
    cases hmatch
    exact ⟨hp, rfl⟩
  next => cases hmatch

/-- The worker answers the one request there is, or dies while it does. -/
theorem Inv.respond (h : Inv s) {q : Process} {k : Nat} {raw : List Char}
    (hasked : asked s = some (q, k, raw)) {members : Members} {written : Nat} {alive : Bool}
    (hwritten : Written true s.unread → Written alive (s.unread ++ [.response k members written])) :
    Inv ((s.produce k members).emit { q with alive := alive } (.response k members written)) := by
  obtain ⟨hp, halive⟩ := asked_eq hasked
  have hpiped := h.piped _ hp
  have hpending := hpiped.pending
  have hpc : s.pc = .reading := by
    by_contra hpc
    cases (h.not_pending hp hpc).2
  rw [if_pos hpc, pending, List.map_cons] at hpending
  obtain ⟨hlines, hk, hstdin⟩ : s.unread.filterMap Line.request = [] ∧ k = s.results.length ∧
      q.stdin.map Prod.fst = [] := by
    cases hlines : s.unread.filterMap Line.request with
    | nil =>
        rw [hlines] at hpending
        exact ⟨rfl, (List.cons.inj hpending).1, (List.cons.inj hpending).2⟩
    | cons j others =>
        rw [hlines] at hpending
        have hempty := (List.cons.inj hpending).2
        simp at hempty
  refine ⟨fun _ => Option.some_ne_none _, ?_, ?_⟩
  · rintro p ⟨⟩
    refine ⟨?_, hwritten (halive ▸ hpiped.written), ?_, ?_, ?_⟩
    · simp only [State.emit, State.produce, List.flatMap_append, List.flatMap_cons, List.flatMap_nil,
        List.append_nil]
      rw [← List.append_assoc, hpiped.stream]
    · simp only [State.emit, State.produce, pending, List.filterMap_append, hlines, hstdin, hpc]
      rw [hk]
      rfl
    · exact fun request hrequest => hpiped.unblank request (List.mem_cons_of_mem _ hrequest)
    · intro j others length hline
      rcases List.mem_append.mp hline with hold | hnew
      · have hnone : j ∈ s.unread.filterMap Line.request := List.mem_filterMap.mpr ⟨_, hold, rfl⟩
        rw [hlines] at hnone
        cases hnone
      · cases List.mem_singleton.mp hnew
        exact Function.update_self ..
  · intro j v hj
    have hne : j ≠ k := by
      rintro rfl
      have hlt := (List.getElem?_eq_some_iff.mp hj).1
      exact absurd hk (Nat.ne_of_lt hlt)
    change FailureShaped v ∨ ∃ m, Function.update s.responses k (some members) j = some m ∧ v = .object m
    rw [Function.update_of_ne hne]
    exact h.answered j v hj

theorem Inv.stray (h : Inv s) (hp : s.proc = some p) (halive : p.alive = true) {text : List Char}
    (htext : '\n' ∉ text) : Inv (s.emit p (.stray text)) := by
  have hpiped := h.piped p hp
  have hcomplete : Line.Complete (.stray text) := htext
  refine ⟨fun _ => Option.some_ne_none _, ?_, h.answered⟩
  rintro q ⟨⟩
  refine ⟨?_, (halive ▸ hpiped.written).append_complete hcomplete _, ?_, hpiped.unblank, ?_⟩
  · simp only [State.emit, List.flatMap_append, List.flatMap_cons, List.flatMap_nil, List.append_nil]
    rw [← List.append_assoc, hpiped.stream]
  · have hsame : pending { p with stdout := p.stdout ++ CurlWorker.Line.text (.stray text) }
        (s.unread ++ [.stray text]) = pending p s.unread := by
      rw [pending, pending, List.filterMap_append]
      simp [Line.request]
    exact hsame.trans hpiped.pending
  · intro k members written hline
    rcases List.mem_append.mp hline with hold | hnew
    · exact hpiped.produced k members written hold
    · cases List.mem_singleton.mp hnew

theorem Inv.die (h : Inv s) (hp : s.proc = some p) :
    Inv { s with proc := some { p with alive := false } } := by
  have hpiped := h.piped p hp
  refine ⟨fun _ => Option.some_ne_none _, ?_, h.answered⟩
  rintro q ⟨⟩
  exact ⟨hpiped.stream, hpiped.written.die, hpiped.pending, hpiped.unblank, hpiped.produced⟩

theorem step_inv {a : Action} (h : Inv s) (hC : Unmixed s a) (hstep : step s a = some t) : Inv t := by
  cases a with
  | invoke =>
      rw [step] at hstep
      split at hstep
      next => cases hstep
      next hpc =>
        split at hstep
        next p hp =>
          split at hstep
          next =>
            cases hstep
            exact h.alive hp (by simpa using hpc)
          next =>
            cases hstep
            exact h.start
        next =>
          cases hstep
          exact h.start
  | write payload ok error =>
      rw [step] at hstep
      split at hstep
      next p hpc hp =>
        split at hstep
        next =>
          cases hstep
          exact h.write hp hpc payload
        next =>
          cases hstep
          exact h.kill _
      next => cases hstep
  | chunk n =>
      rw [step] at hstep
      split at hstep
      next p hpc hp =>
        obtain ⟨_, heq⟩ := Option.ite_none_right_eq_some.mp hstep
        cases heq
        exact h.chunk hp n
      next => cases hstep
  | takeLine =>
      obtain ⟨⟨hpc, hnewline⟩, heq⟩ := Option.ite_none_right_eq_some.mp hstep
      cases heq
      exact h.takeLine hpc hnewline hC
  | eof =>
      rw [step] at hstep
      split at hstep
      next p hpc hp =>
        obtain ⟨⟨hnewline, hbuf, _, hend⟩, heq⟩ := Option.ite_none_right_eq_some.mp hstep
        cases heq
        exact h.eof hp hpc hnewline hbuf hend hC
      next => cases hstep
  | giveUp error =>
      obtain ⟨_, heq⟩ := Option.ite_none_right_eq_some.mp hstep
      cases heq
      exact h.kill error
  | respond members =>
      rw [step] at hstep
      split at hstep
      next q k raw hasked =>
        obtain ⟨_, heq⟩ := Option.ite_none_right_eq_some.mp hstep
        cases heq
        have halive := (asked_eq hasked).2
        have hcomplete : Line.Complete (.response k members (responseLine members).length) := rfl
        obtain ⟨alive, stdin, stdout⟩ := q
        obtain rfl : alive = true := halive
        exact h.respond hasked (fun hwritten => hwritten.append_complete hcomplete true)
      next => cases hstep
  | skipBlank =>
      rw [step] at hstep
      split at hstep
      next q k raw hasked =>
        obtain ⟨hblank, _⟩ := Option.ite_none_right_eq_some.mp hstep
        have hunblank := (h.piped _ (asked_eq hasked).1).unblank (k, raw) List.mem_cons_self
        exact absurd hblank hunblank
      next => cases hstep
  | dieWriting members written =>
      rw [step] at hstep
      split at hstep
      next q k raw hasked =>
        obtain ⟨⟨_, hcut⟩, heq⟩ := Option.ite_none_right_eq_some.mp hstep
        cases heq
        exact h.respond hasked (fun hwritten => hwritten.append_cut hcut)
      next => cases hstep
  | stray text =>
      rw [step] at hstep
      split at hstep
      next p hp =>
        obtain ⟨⟨halive, htext⟩, heq⟩ := Option.ite_none_right_eq_some.mp hstep
        cases heq
        exact h.stray hp halive htext
      next => cases hstep
  | die =>
      obtain ⟨p, hp, rfl⟩ := Option.map_eq_some_iff.mp hstep
      exact h.die hp

/-- Any number of calls, with timeouts, deaths in the middle of a response,
restarts, any chunks, and stray lines that no call takes: the k-th result is a
failure or the response to the k-th request. -/
theorem invokes_paired {actions : List Action} (hrun : run step {} actions = some s)
    (hC : Along step Unmixed {} actions) : Answered s :=
  (along_invariant (fun _ _ _ => step_inv) initial_inv hC hrun).answered

/-- Whether some call takes a stray line next. -/
def headStray : List Line → Bool
  | .stray _ :: _ => true
  | _ => false

theorem headStray_eq_false {lines : List Line} :
    headStray lines = false ↔ ∀ text, lines.head? ≠ some (.stray text) := by
  cases lines with
  | nil => simp [headStray]
  | cons line lines => cases line <;> simp [headStray]

instance decidableUnmixed (s : State) : (a : Action) → Decidable (Unmixed s a)
  | .takeLine | .eof => decidable_of_iff _ headStray_eq_false
  | .invoke | .write _ _ _ | .chunk _ | .giveUp _ | .respond _ | .skipBlank | .dieWriting _ _
  | .stray _ | .die => isTrue trivial

def passed : Members := [("success", .bool true), ("error", .str "")]

def blocked : Members := [("success", .bool false), ("error", .str "reset")]

def ask (domain : String) : Action := .write [("domain", .str domain)] true ""

/-- An answer in two chunks, a timeout, and a worker that dies in the middle of
its answer. -/
def troubled : List Action :=
  [.invoke, ask "a.example", .respond passed, .chunk 10, .chunk 4096, .takeLine,
    .invoke, ask "b.example", .respond passed, .giveUp "timeout after 5s",
    .invoke, ask "c.example", .dieWriting blocked 9, .chunk 4096, .eof,
    .invoke, ask "d.example", .respond blocked, .chunk 4096, .takeLine]

theorem troubled_paired : ∃ s, run step {} troubled = some s ∧ s.results.length = 4 ∧ Answered s := by
  have hend : (run step {} troubled).any (fun s => decide (s.results.length = 4)) = true := by
    decide +kernel
  have hunmixed : Along step Unmixed {} troubled := by decide +kernel
  obtain ⟨s, hrun, hlength⟩ := (Option.any_eq_true _ _).mp hend
  exact ⟨s, hrun, of_decide_eq_true hlength, invokes_paired hrun hunmixed⟩

/-- The worker prints a number before its first answer. -/
def chatty : List Action :=
  [.invoke, ask "a.example", .stray "42".toList, .respond passed, .chunk 4096, .takeLine,
    .invoke, ask "b.example", .takeLine]

/-- The first call returns the number, the second the answer to the first. -/
theorem chatty_shifted : ∃ s, run step {} chatty = some s ∧
    s.results = [.number (.int 42), .object passed] ∧ s.responses 0 = some passed ∧
      s.responses 1 = none ∧ ¬ Answered s := by
  have hend : (run step {} chatty).map (fun s => (s.results, s.responses 0, s.responses 1)) =
      some ([.number (.int 42), .object passed], some passed, none) := by rfl
  obtain ⟨s, hrun, hs⟩ := Option.map_eq_some_iff.mp hend
  obtain ⟨hresults, hs⟩ := Prod.mk.inj hs
  obtain ⟨hfirst, hsecond⟩ := Prod.mk.inj hs
  refine ⟨s, hrun, hresults, hfirst, hsecond, fun hanswered => ?_⟩
  rcases hanswered 0 (.number (.int 42)) (by rw [hresults]; rfl) with ⟨_, hfail⟩ | ⟨_, _, hobject⟩
  · cases hfail
  · cases hobject

end Blockchecks.CurlWorkerRuns
