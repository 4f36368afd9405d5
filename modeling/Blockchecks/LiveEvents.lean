import Blockchecks.CurlWorkerRuns
import Blockchecks.ProbeServer
import Blockchecks.TextFile
import Blockchecks.TriageRecord
import Mathlib.Data.List.DropRight
import Mathlib.Data.List.ReduceOption

namespace Blockchecks.LiveEvents

open CurlWorkerRuns Json ProbeServer Runs StrategyText TextFile

abbrev Members := List (String × Value)

/-! The records of a journal and what a reader makes of them. -/

section records

/-- The arguments of write_probe. -/
structure Probe where
  domain : String
  strategy : String
  ns : String
  backend : String
  status : String
  httpCode : Int := 0
  latencyMs : ℚ := 0
  applied : Option Bool := none

def record (ts : String) (p : Probe) : Members :=
  [("ts", .str ts), ("domain", .str p.domain), ("strategy", .str (String.ofList (p.strategy.toList.take 64))),
    ("ns", .str p.ns), ("backend", .str p.backend), ("status", .str p.status), ("http", .number (.int p.httpCode)),
    ("ms", .number (.int (TriageRecord.roundHalfEven p.latencyMs))), ("applied", p.applied.elim .null .bool)]

def recordText (rec : Members) : List Char := unicode.dump (.object rec)

def recordLine (rec : Members) : List Char := recordText rec ++ ['\n']

def readlines (text : List Char) : List (List Char) := (universalNewlines text).splitOn '\n'

def domainIs (domain : String) : Option Value → Bool
  | some (.str s) => s = domain
  | _ => false

/-- The test of the domain; what is no dict has no get. -/
def wanted (domain : String) : Value → Option Bool
  | .object members => some (domain = "" || domainIs domain (get? members "domain"))
  | _ => if domain = "" then some true else none

/-- The loop over the lines, the last one first; none when it raises. -/
def tailLoop (limit : Nat) (domain : String) : List (List Char) → List Value → Option (List Value)
  | [], out => some out
  | line :: lines, out =>
    let text := strip line
    if text = [] then tailLoop limit domain lines out
    else match loads text with
      | none => tailLoop limit domain lines out
      | some rec => match wanted domain rec with
        | none => none
        | some false => tailLoop limit domain lines out
        | some true =>
          let out := out ++ [rec]
          if limit ≤ out.length then some out else tailLoop limit domain lines out

/-- What tail_events makes of the bytes of the journal; none when it raises, as it does when the
last of them are no whole character. -/
def tailEvents (limit : Int) (domain : String) : Option (List UInt8) → Option (List Value)
  | none => some []
  | some bytes => (decodeStrict bytes).bind
      (fun text => (tailLoop (max 1 limit).toNat domain (readlines text).reverse []).map List.reverse)

variable {rec : Members} {front back text : List Char}

/-- Nothing but whitespace can follow the object that a text is. -/
theorem loads_more {v : Value} (hloads : loads text = some v) (hbrace : text.head? = some '{') {tail : List Char}
    (htail : skipWhitespace tail ≠ []) : loads (text ++ tail) = none := by
  obtain ⟨cs, rfl⟩ : ∃ cs, text = '{' :: cs := by
    cases text with
    | nil => cases hbrace
    | cons c cs => exact ⟨cs, by rw [Option.some.inj hbrace]⟩
  have hskip : ∀ cs : List Char, skipWhitespace ('{' :: cs) = '{' :: cs := fun cs => skipWhitespace_cons rfl
  rw [loads, hskip] at hloads
  obtain ⟨⟨w, after⟩, hscan, hblank⟩ := Option.bind_eq_some_iff.mp hloads
  have hafter : skipWhitespace after = [] := by
    by_contra hne
    rw [if_neg hne] at hblank
    exact absurd hblank (Option.some_ne_none v).symm
  have hlong := (noLookahead _).value hscan (Or.inr ⟨'{', by decide, rfl⟩) (('{' :: cs ++ tail).length + 1)
    (by rw [List.length_append]; omega) tail
  have hrest : skipWhitespace (after ++ tail) ≠ [] := by
    have hall : ∀ c ∈ after, isWhitespace c = true := List.dropWhile_eq_nil_iff.mp hafter
    rw [skipWhitespace, List.dropWhile_append, if_pos (by rw [← skipWhitespace, hafter]; rfl)]
    exact htail
  rw [loads, List.cons_append, hskip, ← List.cons_append, hlong, Option.bind_some, if_neg hrest]

theorem recordText_braces (rec : Members) : ∃ body, recordText rec = '{' :: (body ++ ['}']) := by
  cases rec with
  | nil => exact ⟨[], by rw [recordText, Style.dump]; rfl⟩
  | cons m rec =>
      refine ⟨unicode.string m.1 ++ (':' :: (unicode.gap ++ (unicode.dump m.2 ++ unicode.dumpMembers rec))), ?_⟩
      rw [recordText, Style.dump]
      simp

theorem loads_recordText (rec : Members) : loads (recordText rec) = some (.object rec) :=
  unicode_sound.loads_dump _

theorem strip_recordText (rec : Members) : strip (recordText rec) = recordText rec := by
  obtain ⟨body, hbody⟩ := recordText_braces rec
  have hfirst : isSpace '{' = false := by decide
  have hlast : isSpace '}' = false := by decide
  rw [hbody, strip, List.dropWhile_cons, hfirst]
  simp [hlast]

theorem recordText_ne_nil (rec : Members) : recordText rec ≠ [] := by
  obtain ⟨body, hbody⟩ := recordText_braces rec
  rw [hbody]
  exact List.cons_ne_nil _ _

/-- A record that was cut short is no JSON. -/
theorem loads_cut_record (hrec : recordText rec = front ++ back) (hback : back ≠ []) : loads front = none := by
  obtain ⟨body, hbody⟩ := recordText_braces rec
  cases hloads : loads front with
  | none => rfl
  | some v =>
      have hhead : front.head? = some '{' := by
        cases front with
        | nil => cases hloads
        | cons c cs =>
            rw [hbody] at hrec
            rw [← (List.cons.inj hrec).1]
            rfl
      have htail : skipWhitespace back ≠ [] := by
        have hlast : back.getLast? = some '}' := by
          have hwhole : (front ++ back).getLast? = some '}' := by
            rw [← hrec, hbody, ← List.cons_append]
            exact List.getLast?_concat
          rwa [List.getLast?_append_of_ne_nil _ hback] at hwhole
        intro hblank
        have hall : ∀ c ∈ back, isWhitespace c = true := List.dropWhile_eq_nil_iff.mp hblank
        exact absurd (hall '}' (List.mem_of_getLast? hlast)) (by decide)
      have hwhole := loads_more hloads hhead htail
      rw [← hrec, loads_recordText] at hwhole
      exact absurd hwhole (Option.some_ne_none _)

theorem recordText_no_newline (rec : Members) : ∀ c ∈ recordText rec, c ≠ '\n' ∧ c ≠ '\r' := by
  intro c hc
  have hlarge : ' ' ≤ c := unicode_writes.dump (.object rec) c hc
  constructor
  · rintro rfl
    exact absurd hlarge (by decide)
  · rintro rfl
    exact absurd hlarge (by decide)

def isFor (domain : String) (rec : Members) : Bool := domain = "" || domainIs domain (get? rec "domain")

/-- What a line of a journal is to the loop: a record, or nothing. -/
def Reads (line : List Char) : Option Members → Prop
  | none => strip line = [] ∨ loads (strip line) = none
  | some rec => strip line ≠ [] ∧ loads (strip line) = some (.object rec)

theorem reads_recordText (rec : Members) : Reads (recordText rec) (some rec) := by
  rw [Reads, strip_recordText]
  exact ⟨recordText_ne_nil rec, loads_recordText rec⟩

theorem reads_cut (hrec : recordText rec = front ++ back) (hback : back ≠ []) : Reads front none := by
  have hhead : ∀ c ∈ front.head?, c = '{' := by
    intro c hc
    obtain ⟨body, hbody⟩ := recordText_braces rec
    cases front with
    | nil => cases hc
    | cons d ds =>
        obtain rfl := Option.some.inj hc
        rw [hbody] at hrec
        exact (List.cons.inj hrec).1.symm
  obtain ⟨more, hmore⟩ := strip_prefix hhead
  have hcut : recordText rec = strip front ++ (more ++ back) := by rw [hrec, ← List.append_assoc, hmore]
  exact Or.inr (loads_cut_record hcut (by simp [hback]))

theorem tailLoop_spec {limit : Nat} {domain : String} {lines : List (List Char)} {rs : List (Option Members)}
    (h : List.Forall₂ Reads lines rs) {out : List Value} (hout : out.length < limit) :
    tailLoop limit domain lines out =
      some (out ++ ((rs.reduceOption.filter (isFor domain)).take (limit - out.length)).map .object) := by
  induction h generalizing out with
  | nil => rw [List.reduceOption_nil, List.filter_nil, List.take_nil, List.map_nil, List.append_nil, tailLoop]
  | @cons line r lines rs hline _ ih =>
      rw [tailLoop]
      cases r with
      | none =>
          rw [List.reduceOption_cons_of_none]
          rcases hline with hblank | hbad
          · rw [if_pos hblank]
            exact ih hout
          · by_cases hblank : strip line = []
            · rw [if_pos hblank]
              exact ih hout
            · rw [if_neg hblank, hbad]
              exact ih hout
      | some rec =>
          obtain ⟨hne, hrec⟩ := hline
          rw [List.reduceOption_cons_of_some, if_neg hne, hrec]
          have hwanted : wanted domain (.object rec) = some (isFor domain rec) := rfl
          simp only [hwanted]
          cases hfor : isFor domain rec with
          | false =>
              rw [List.filter_cons_of_neg (by simp [hfor])]
              exact ih hout
          | true =>
              rw [List.filter_cons_of_pos hfor]
              have hroom : limit - out.length = limit - (out ++ [Value.object rec]).length + 1 := by
                rw [List.length_append, List.length_singleton]
                omega
              rw [hroom, List.take_succ_cons, List.map_cons]
              simp only
              split_ifs with hfull
              · have hnone : limit - (out ++ [Value.object rec]).length = 0 := by omega
                rw [hnone, List.take_zero, List.map_nil]
              · rw [ih (by omega), List.append_assoc, List.singleton_append]

theorem readlines_recordLines (recs : List Members) {torn : List Char} (htorn : ∀ c ∈ torn, c ≠ '\n' ∧ c ≠ '\r') :
    readlines (recs.flatMap recordLine ++ torn) = recs.map recordText ++ [torn] := by
  have hreturn : '\r' ∉ recs.flatMap recordLine ++ torn := by
    intro hin
    rcases List.mem_append.mp hin with hin | hin
    · obtain ⟨rec, -, hin⟩ := List.mem_flatMap.mp hin
      rcases List.mem_append.mp hin with hin | hin
      · exact (recordText_no_newline rec _ hin).2 rfl
      · exact absurd (List.mem_singleton.mp hin) (by decide)
    · exact (htorn _ hin).2 rfl
  rw [readlines, universalNewlines_eq_self hreturn]
  clear hreturn
  induction recs with
  | nil => exact List.splitOnP_eq_singleton fun c hc => by simpa using (htorn c hc).1
  | cons rec recs ih =>
      rw [List.flatMap_cons, recordLine, List.append_assoc, List.append_assoc, List.singleton_append, List.splitOn,
        List.splitOnP_append_cons_of_forall_mem (fun c hc => by simpa using (recordText_no_newline rec c hc).1) '\n'
          (by simp)]
      exact congrArg _ ih

/-- What a reader sees of a journal to which a record is just being appended: the records before
it, and the first bytes of its line. -/
def seen (recs : List Members) (arriving : Option (Members × Nat)) : List UInt8 :=
  encode (recs.flatMap recordLine) ++ arriving.elim [] (fun a => (encode (recordLine a.1)).take a.2)

/-- The record that arrives counts as soon as its text is there, with or without the newline. A
cut through a character is a UnicodeDecodeError. -/
def arrived : Option (Members × Nat) → Option (List Members)
  | none => some []
  | some (rec, count) =>
    if decodeStrict ((encode (recordLine rec)).take count) = none then none
    else if (encode (recordText rec)).length ≤ count then some [rec] else some []

theorem encode_recordLine (rec : Members) : encode (recordLine rec) = encode (recordText rec) ++ encode ['\n'] :=
  encode_append _ _

theorem length_encode_recordLine (rec : Members) :
    (encode (recordLine rec)).length = (encode (recordText rec)).length + 1 := by
  rw [encode_recordLine, List.length_append]
  rfl

/-- Where a line can be cut: behind its newline, or somewhere in its text. -/
theorem cut_line {count : Nat} {torn : List Char}
    (htorn : decodeStrict ((encode (recordLine rec)).take count) = some torn) :
    torn = recordLine rec ∧ (encode (recordText rec)).length ≤ count ∨
    ∃ back, recordText rec = torn ++ back ∧ (back = [] ↔ (encode (recordText rec)).length ≤ count) := by
  have hbytes := encode_of_decodeStrict htorn
  have hsize : (encode torn).length = min count ((encode (recordText rec)).length + 1) := by
    rw [hbytes, List.length_take, length_encode_recordLine]
  obtain ⟨rest, hrest⟩ : ∃ rest, torn ++ rest = recordLine rec := by
    have hline := decodeStrict_encode (recordLine rec)
    rw [← List.take_append_drop count (encode (recordLine rec)), ← hbytes, decodeStrict_append] at hline
    obtain ⟨rest, -, hrest⟩ := Option.map_eq_some_iff.mp hline
    exact ⟨rest, hrest⟩
  rcases List.eq_nil_or_concat rest with rfl | ⟨back, c, rfl⟩
  · rw [List.append_nil] at hrest
    refine Or.inl ⟨hrest, ?_⟩
    rw [hrest, length_encode_recordLine] at hsize
    omega
  · rw [List.concat_eq_append, ← List.append_assoc, recordLine] at hrest
    have htext : torn ++ back = recordText rec := (List.append_inj' hrest rfl).1
    refine Or.inr ⟨back, htext.symm, ?_⟩
    have hlength : (encode (recordText rec)).length = (encode torn).length + (encode back).length := by
      rw [← htext, encode_append, List.length_append]
    constructor
    · rintro rfl
      have hnone : (encode []).length = 0 := rfl
      omega
    · intro hle
      have hnone : encode back = [] := List.length_eq_zero_iff.mp (by omega)
      have hback := decodeStrict_encode back
      rw [hnone] at hback
      exact (Option.some.inj hback).symm.trans (by decide)

/-- The tail of a journal is the last records of the domain, just as they were written. -/
theorem tailEvents_seen (limit : Int) (domain : String) (recs : List Members) (arriving : Option (Members × Nat)) :
    tailEvents limit domain (some (seen recs arriving)) = (arrived arriving).map (fun new =>
      (((recs ++ new).filter (isFor domain)).rtake (max 1 limit).toNat).map .object) := by
  -- whatever the cut leaves, the lines are those of whole records and one more
  have hlines : ∀ (whole : List Members) {torn : List Char} {r : Option Members},
      (∀ c ∈ torn, c ≠ '\n' ∧ c ≠ '\r') → Reads torn r →
      (tailLoop (max 1 limit).toNat domain (readlines (whole.flatMap recordLine ++ torn)).reverse []).map List.reverse =
        some ((((whole ++ r.toList).filter (isFor domain)).rtake (max 1 limit).toNat).map .object) := by
    intro whole torn r htorn hr
    have hreads : List.Forall₂ Reads (whole.map recordText ++ [torn]) (whole.map some ++ [r]) := by
      refine List.rel_append ?_ (List.Forall₂.cons hr List.Forall₂.nil)
      rw [List.forall₂_map_left_iff, List.forall₂_map_right_iff, List.forall₂_same]
      exact fun rec _ => reads_recordText rec
    have hshown : (whole.map some ++ [r]).reduceOption = whole ++ r.toList := by
      have hwhole : (whole.map some).reduceOption = whole := by simp [List.reduceOption, List.filterMap_map]
      rw [List.reduceOption_append, hwhole, List.reduceOption_singleton]
    have hlast : (whole.map some ++ [r]).reverse.reduceOption = (whole ++ r.toList).reverse :=
      hshown ▸ List.filterMap_reverse
    rw [readlines_recordLines whole htorn,
      tailLoop_spec (List.rel_reverse hreads) (by rw [List.length_nil]; omega), hlast]
    simp [List.rtake_eq_reverse_take_reverse]
  have hblank : Reads [] none := Or.inl rfl
  rw [tailEvents, seen, decodeStrict_append]
  cases arriving with
  | none =>
      have hdone := hlines recs (List.forall_mem_nil _) hblank
      have hnone : decodeStrict [] = some [] := decodeStrict_encode []
      rw [Option.elim_none, hnone]
      exact hdone
  | some a =>
      obtain ⟨rec, count⟩ := a
      rw [Option.elim_some, arrived]
      cases htorn : decodeStrict ((encode (recordLine rec)).take count) with
      | none => rfl
      | some torn =>
          rw [if_neg (Option.some_ne_none torn)]
          rcases cut_line htorn with ⟨rfl, hle⟩ | ⟨back, htext, hback⟩
          · have hdone := hlines (recs ++ [rec]) (List.forall_mem_nil _) hblank
            rw [List.flatMap_append, List.flatMap_singleton, List.append_nil, Option.toList_none, List.append_nil] at hdone
            rw [if_pos hle]
            exact hdone
          · have hclean : ∀ c ∈ torn, c ≠ '\n' ∧ c ≠ '\r' := fun c hc =>
              recordText_no_newline rec c (by rw [htext]; exact List.mem_append_left _ hc)
            by_cases hle : (encode (recordText rec)).length ≤ count
            · rw [hback.mpr hle, List.append_nil] at htext
              rw [if_pos hle]
              exact hlines recs hclean (htext ▸ reads_recordText rec)
            · rw [if_neg hle]
              exact hlines recs hclean (reads_cut htext (fun h => hle (hback.mp h)))

end records

/-! A journal that several threads of the process write. -/

section journal

variable {Writer : Type} [DecidableEq Writer]

/-- _MAX_JOURNAL_BYTES -/
def maxJournalBytes : Nat := 32 * 1024 * 1024

/-- Where a call of write_probe stands. -/
inductive Phase where
  | idle
  | asked (rec : Members)
  | large (rec : Members)
  | cleared (rec : Members)
  | opened (file : Nat) (rec : Members)

def Phase.rec? : Phase → Option Members
  | idle => none
  | asked rec | large rec | cleared rec | opened _ rec => some rec

/-- The files that ever had the journal's name, and the one that has it now. -/
structure Journal (Writer : Type) where
  path : Option Nat := none
  content : Nat → List UInt8 := fun _ => []
  next : Nat := 0
  phase : Writer → Phase := fun _ => .idle

inductive Action (Writer : Type) where
  | ask (w : Writer) (ts : String) (p : Probe)
  | stat (w : Writer)
  | statFails (w : Writer)
  | rename (w : Writer)
  | renameFails (w : Writer)
  | openAppend (w : Writer)
  | write (w : Writer)
  | fail (w : Writer)

namespace Journal

def goes (s : Journal Writer) (w : Writer) (phase : Phase) : Journal Writer :=
  { s with phase := Function.update s.phase w phase }

def tooLarge (s : Journal Writer) : Bool := s.path.any (fun file => maxJournalBytes < (s.content file).length)

/-- open("a") makes the file when there is none. -/
def opening (s : Journal Writer) : Journal Writer := match s.path with
  | some _ => s
  | none => { s with path := some s.next, content := Function.update s.content s.next [], next := s.next + 1 }

def append (s : Journal Writer) (file : Nat) (bytes : List UInt8) : Journal Writer :=
  { s with content := Function.update s.content file (s.content file ++ bytes) }

/-- The steps of write_probe. The rename of a file that another thread has renamed is an OSError,
and changes nothing. -/
def step (s : Journal Writer) : Action Writer → Option (Journal Writer)
  | .ask w ts p => match s.phase w with
    | .idle => some (s.goes w (.asked (record ts p)))
    | _ => none
  | .stat w => match s.phase w with
    | .asked rec => some (s.goes w (if s.tooLarge then .large rec else .cleared rec))
    | _ => none
  | .statFails w => match s.phase w with
    | .asked rec => some (s.goes w (.cleared rec))
    | _ => none
  | .rename w => match s.phase w with
    | .large rec => some ({ s with path := none }.goes w (.cleared rec))
    | _ => none
  | .renameFails w => match s.phase w with
    | .large rec => some (s.goes w (.cleared rec))
    | _ => none
  | .openAppend w => match s.phase w, s.opening.path with
    | .cleared rec, some file => some (s.opening.goes w (.opened file rec))
    | _, _ => none
  | .write w => match s.phase w with
    | .opened file rec => some ((s.append file (encode (recordLine rec))).goes w .idle)
    | _ => none
  | .fail w => match s.phase w with
    | .asked _ | .cleared _ | .opened _ _ => some (s.goes w .idle)
    | _ => none

/-- The record that is just being appended to the journal, as far as it is there. -/
def arriving (s : Journal Writer) (reading : Option (Writer × Nat)) : Option (Members × Nat) :=
  reading.bind fun r => match s.phase r.1 with
    | .opened file rec => if s.path = some file then some (rec, r.2) else none
    | _ => none

/-- What tail_events reads, while a writer may be in the middle of its write. -/
def bytes (s : Journal Writer) (reading : Option (Writer × Nat)) : Option (List UInt8) :=
  s.path.map (fun file => s.content file ++ (s.arriving reading).elim [] (fun a => (encode (recordLine a.1)).take a.2))

end Journal

/-- What the journal is there to show: the records whose writers opened it since it was last
renamed. -/
structure Shown (Writer : Type) where
  asked : Writer → Option Members := fun _ => none
  since : Writer → Bool := fun _ => false
  records : List Members := []

def Shown.next (v : Shown Writer) : Action Writer → Shown Writer
  | .ask w ts p => { v with asked := Function.update v.asked w (some (record ts p)) }
  | .rename _ => { v with since := fun _ => false, records := [] }
  | .openAppend w => { v with since := Function.update v.since w true }
  | .write w => { v with records := v.records ++ if v.since w then (v.asked w).toList else [] }
  | _ => v

def shown (as : List (Action Writer)) : Shown Writer := as.foldl Shown.next {}

/-- The journal holds what is to be shown, and the writers that are about to add to it are those
that opened it since the rename. -/
structure Matches (s : Journal Writer) (v : Shown Writer) : Prop where
  content : ∀ file, s.path = some file → s.content file = encode (v.records.flatMap recordLine)
  blank : s.path = none → v.records = []
  since : ∀ w file rec, s.phase w = .opened file rec → (v.since w = true ↔ s.path = some file)
  asked : ∀ w rec, (s.phase w).rec? = some rec → v.asked w = some rec
  known : ∀ file, s.path = some file → file < s.next
  old : ∀ w file rec, s.phase w = .opened file rec → file < s.next

variable {s t : Journal Writer} {v : Shown Writer} {w : Writer}

@[simp] theorem goes_path (phase : Phase) : (s.goes w phase).path = s.path := rfl
@[simp] theorem goes_content (phase : Phase) : (s.goes w phase).content = s.content := rfl
@[simp] theorem goes_next (phase : Phase) : (s.goes w phase).next = s.next := rfl

/-- A writer that has no file open goes on with its record, or is done with it. -/
theorem Matches.goes {phase : Phase} (h : Matches s v) (hasked : ∀ rec, phase.rec? = some rec → v.asked w = some rec)
    (hopened : ∀ file rec, phase ≠ .opened file rec) : Matches (s.goes w phase) v where
  content := h.content
  blank := h.blank
  known := h.known
  since w' file rec hphase := by
    by_cases hw : w' = w
    · subst hw
      exact absurd (by simpa [Journal.goes] using hphase) (hopened file rec)
    · exact h.since w' file rec (by simpa [Journal.goes, hw] using hphase)
  asked w' rec hrec := by
    by_cases hw : w' = w
    · subst hw
      exact hasked rec (by simpa [Journal.goes] using hrec)
    · exact h.asked w' rec (by simpa [Journal.goes, hw] using hrec)
  old w' file rec hphase := by
    by_cases hw : w' = w
    · subst hw
      exact absurd (by simpa [Journal.goes] using hphase) (hopened file rec)
    · exact h.old w' file rec (by simpa [Journal.goes, hw] using hphase)

theorem Matches.keeps {phase : Phase} (h : Matches s v) (hrec : phase.rec? = (s.phase w).rec?)
    (hopened : ∀ file rec, phase ≠ .opened file rec) : Matches (s.goes w phase) v :=
  h.goes (fun rec hphase => h.asked w rec (hrec ▸ hphase)) hopened

theorem Matches.ask (h : Matches s v) (hidle : s.phase w = .idle) (ts : String) (p : Probe) :
    Matches (s.goes w (.asked (record ts p))) (v.next (.ask w ts p)) := by
  -- a record is asked of a writer that has none
  have hnext : Matches s (v.next (.ask w ts p)) := by
    refine ⟨h.content, h.blank, h.since, fun w' rec hrec => ?_, h.known, h.old⟩
    by_cases hw : w' = w
    · subst hw
      simp [hidle, Phase.rec?] at hrec
    · simpa [Shown.next, hw] using h.asked w' rec hrec
  exact hnext.goes (by simp [Phase.rec?, Shown.next]) (by simp)

theorem Matches.rename (h : Matches s v) : Matches { s with path := none } (v.next (.rename w)) where
  content _ hpath := by cases hpath
  blank _ := rfl
  since w file rec hphase := by simp [Shown.next]
  asked := h.asked
  known _ hpath := by cases hpath
  old := h.old

omit [DecidableEq Writer] in
/-- A new file is one that no writer has open. -/
theorem Matches.opening (h : Matches s v) : Matches s.opening v := by
  cases hpath : s.path with
  | some file =>
      have hsame : s.opening = s := by simp [Journal.opening, hpath]
      rw [hsame]
      exact h
  | none =>
      have hnew : s.opening =
          { s with path := some s.next, content := Function.update s.content s.next [], next := s.next + 1 } := by
        simp [Journal.opening, hpath]
      rw [hnew]
      refine ⟨fun file hfile => ?_, fun hnone => (by cases hnone), fun w file rec hphase => ?_, h.asked,
        fun file hfile => ?_, fun w file rec hphase => Nat.lt_succ_of_lt (h.old w file rec hphase)⟩
      · obtain rfl := Option.some.inj hfile
        simp [h.blank hpath, encode]
      · have hold := h.old w file rec hphase
        have hother : some s.next ≠ some file := fun heq => by
          have hsame := Option.some.inj heq
          omega
        rw [h.since w file rec hphase, hpath]
        exact iff_of_false (by simp) hother
      · obtain rfl := Option.some.inj hfile
        exact Nat.lt_succ_self _

theorem Matches.openAppend {file : Nat} {rec : Members} (h : Matches s v) (hpath : s.path = some file)
    (hasked : v.asked w = some rec) : Matches (s.goes w (.opened file rec)) (v.next (.openAppend w)) where
  content := h.content
  blank := h.blank
  known := h.known
  since w' file' rec' hphase := by
    by_cases hw : w' = w
    · subst hw
      have hsame : Phase.opened file rec = .opened file' rec' := by simpa [Journal.goes] using hphase
      obtain ⟨rfl, -⟩ := Phase.opened.inj hsame
      simp [Shown.next, hpath]
    · simpa [Shown.next, hw] using h.since w' file' rec' (by simpa [Journal.goes, hw] using hphase)
  asked w' rec' hrec := by
    by_cases hw : w' = w
    · subst hw
      have hsame : some rec = some rec' := by simpa [Journal.goes, Phase.rec?] using hrec
      exact hsame ▸ hasked
    · exact h.asked w' rec' (by simpa [Journal.goes, hw] using hrec)
  old w' file' rec' hphase := by
    by_cases hw : w' = w
    · subst hw
      have hsame : Phase.opened file rec = .opened file' rec' := by simpa [Journal.goes] using hphase
      obtain ⟨rfl, -⟩ := Phase.opened.inj hsame
      exact h.known _ hpath
    · exact h.old w' file' rec' (by simpa [Journal.goes, hw] using hphase)

/-- A writer that opened a file which has the name no more writes where nobody reads. -/
theorem Matches.write {file : Nat} {rec : Members} (h : Matches s v) (hphase : s.phase w = .opened file rec) :
    Matches (s.append file (encode (recordLine rec))) (v.next (.write w)) := by
  have hasked := h.asked w rec (by rw [hphase]; rfl)
  have hwrites : v.since w = true ↔ s.path = some file := h.since w file rec hphase
  refine ⟨fun file' hpath => ?_, fun hpath => ?_, h.since, h.asked, h.known, h.old⟩
  · have hcontent := h.content file' hpath
    by_cases hfile : file' = file
    · subst hfile
      have hrecords : (v.next (.write w)).records = v.records ++ [rec] := by
        simp [Shown.next, hwrites.mpr hpath, hasked]
      rw [hrecords, List.flatMap_append, List.flatMap_singleton, encode_append, ← hcontent]
      simp [Journal.append]
    · have hnot : ¬v.since w = true := fun hw => hfile (Option.some.inj (hpath.symm.trans (hwrites.mp hw)))
      simpa [Shown.next, hnot, Journal.append, hfile] using hcontent
  · have hnone : s.path = none := hpath
    have hnot : ¬v.since w = true := fun hw => by simp [hwrites.mp hw] at hnone
    simpa [Shown.next, hnot] using h.blank hnone

/-- One step keeps the journal in line with what it is there to show. -/
theorem Matches.step {a : Action Writer} (h : Matches s v) (hstep : s.step a = some t) : Matches t (v.next a) := by
  cases a with
  | ask w ts p =>
      cases hphase : s.phase w <;> simp only [Journal.step, hphase] at hstep <;> cases hstep
      exact h.ask hphase ts p
  | stat w =>
      cases hphase : s.phase w <;> simp only [Journal.step, hphase] at hstep <;> cases hstep
      split <;> exact h.keeps (by rw [hphase]; rfl) (by simp)
  | statFails w =>
      cases hphase : s.phase w <;> simp only [Journal.step, hphase] at hstep <;> cases hstep
      exact h.keeps (by rw [hphase]; rfl) (by simp)
  | rename w =>
      cases hphase : s.phase w <;> simp only [Journal.step, hphase] at hstep <;> cases hstep
      exact h.rename.keeps (by rw [hphase]; rfl) (by simp)
  | renameFails w =>
      cases hphase : s.phase w <;> simp only [Journal.step, hphase] at hstep <;> cases hstep
      exact h.keeps (by rw [hphase]; rfl) (by simp)
  | openAppend w =>
      cases hphase : s.phase w <;> simp only [Journal.step, hphase] at hstep <;> try cases hstep
      rename_i rec
      have hasked := h.asked w rec (by rw [hphase]; rfl)
      cases hpath : s.opening.path <;> simp only [hpath] at hstep <;> cases hstep
      exact h.opening.openAppend hpath hasked
  | write w =>
      cases hphase : s.phase w <;> simp only [Journal.step, hphase] at hstep <;> cases hstep
      exact (h.write hphase).goes (by simp [Phase.rec?]) (by simp)
  | fail w =>
      cases hphase : s.phase w <;> simp only [Journal.step, hphase] at hstep <;> cases hstep <;>
        exact h.goes (by simp [Phase.rec?]) (by simp)

theorem matches_run {as : List (Action Writer)} (h : Matches s v) (hrun : run Journal.step s as = some t) :
    Matches t (as.foldl Shown.next v) := by
  induction as generalizing s v with
  | nil => exact Option.some.inj hrun ▸ h
  | cons a as ih =>
      obtain ⟨u, hu, hr⟩ := run_cons_eq_some.mp hrun
      exact ih (h.step hu) hr

omit [DecidableEq Writer] in
theorem matches_start : Matches ({} : Journal Writer) {} := by
  refine ⟨?_, ?_, ?_, ?_, ?_, ?_⟩ <;> simp [Phase.rec?]

def twoWriters : List (Action Bool) :=
  let p : Probe := { domain := "a.example", strategy := "fake", ns := "bc0", backend := "lua_bridge", status := "PASS" }
  [.ask true "t0" p, .ask false "t1" p, .stat false, .stat true, .openAppend true, .openAppend false, .write false,
    .write true]

end journal

/-! The snapshot of the current probe, which several threads publish over one temporary file. -/

section current

variable {Caller : Type} [DecidableEq Caller]

def payload (ts : String) (epoch : Int) (domain strategy ns backend : String) : Members :=
  [("ts", .str ts), ("epoch", .number (.int epoch)), ("domain", .str domain),
    ("strategy", .str (String.ofList (strategy.toList.take 96))), ("ns", .str ns), ("backend", .str backend)]

/-- Where a call of set_current stands. -/
inductive Stage where
  | idle
  | asked (rec : Members)
  | opened (file : Nat) (rec : Members)
  | written

/-- The files that ever were the temporary file or the snapshot. -/
structure Snapshot (Caller : Type) where
  tmp : Option Nat := none
  path : Option Nat := none
  content : Nat → List UInt8 := fun _ => []
  next : Nat := 0
  stage : Caller → Stage := fun _ => .idle

inductive Publish (Caller : Type) where
  | ask (c : Caller) (ts : String) (epoch : Int) (domain strategy ns backend : String)
  | openTmp (c : Caller)
  | write (c : Caller)
  | replace (c : Caller)
  | fail (c : Caller)

namespace Snapshot

def goes (s : Snapshot Caller) (c : Caller) (stage : Stage) : Snapshot Caller :=
  { s with stage := Function.update s.stage c stage }

def put (s : Snapshot Caller) (file : Nat) (bytes : List UInt8) : Snapshot Caller :=
  { s with content := Function.update s.content file bytes }

/-- The steps of set_current. open("w") empties the temporary file that is there, and a write is
at the start of the file that was opened, whatever name it has by then. -/
def step (s : Snapshot Caller) : Publish Caller → Option (Snapshot Caller)
  | .ask c ts epoch domain strategy ns backend => match s.stage c with
    | .idle => some (s.goes c (.asked (payload ts epoch domain strategy ns backend)))
    | _ => none
  | .openTmp c => match s.stage c, s.tmp with
    | .asked rec, some file => some ((s.put file []).goes c (.opened file rec))
    | .asked rec, none =>
      some (({ s with tmp := some s.next, next := s.next + 1 }.put s.next []).goes c (.opened s.next rec))
    | _, _ => none
  | .write c => match s.stage c with
    | .opened file rec =>
      let bytes := encode (recordText rec)
      some ((s.put file (bytes ++ (s.content file).drop bytes.length)).goes c .written)
    | _ => none
  | .replace c => match s.stage c, s.tmp with
    | .written, some file => some ({ s with path := some file, tmp := none }.goes c .idle)
    | .written, none => some (s.goes c .idle)
    | _, _ => none
  | .fail c => match s.stage c with
    | .idle => none
    | _ => some (s.goes c .idle)

end Snapshot

/-- read_current: none when it raises, for bytes that are no UTF-8. -/
def readCurrent : Option (List UInt8) → Option (Option Value)
  | none => some none
  | some bytes => (decodeStrict bytes).map (fun text => loads (universalNewlines text))

def Publish.payload? : Publish Caller → Option Members
  | .ask _ ts epoch domain strategy ns backend => some (payload ts epoch domain strategy ns backend)
  | _ => none

def closingBrace : UInt8 := 0x7d

def carriageReturn : UInt8 := 0x0d

/-- What a file can hold: nothing, or one of the payloads and behind it the end of a longer one. -/
structure Holds (asked : List Members) (bytes : List UInt8) : Prop where
  plain : carriageReturn ∉ bytes
  shape : bytes = [] ∨ bytes.getLast? = some closingBrace ∧ ∃ rec ∈ asked, encode (recordText rec) <+: bytes

structure Settled (asked : List Members) (s : Snapshot Caller) : Prop where
  content : ∀ file, Holds asked (s.content file)
  own : ∀ c rec, (s.stage c = .asked rec ∨ ∃ file, s.stage c = .opened file rec) → rec ∈ asked

theorem last_recordText (rec : Members) : (encode (recordText rec)).getLast? = some closingBrace := by
  obtain ⟨body, hbody⟩ := recordText_braces rec
  have hlast : encode ['}'] = [closingBrace] := by decide
  rw [hbody, ← List.cons_append, encode_append, hlast]
  exact List.getLast?_concat

theorem holds_nil (asked : List Members) : Holds asked [] := ⟨List.not_mem_nil, Or.inl rfl⟩

/-- A payload written over what a file holds. -/
theorem holds_overwrite {asked : List Members} {rec : Members} {old : List UInt8} (hrec : rec ∈ asked)
    (hold : Holds asked old) :
    Holds asked (encode (recordText rec) ++ old.drop (encode (recordText rec)).length) := by
  refine ⟨fun hmem => ?_, Or.inr ⟨?_, rec, hrec, List.prefix_append _ _⟩⟩
  · rcases List.mem_append.mp hmem with hmem | hmem
    · obtain ⟨c, hc, hnat⟩ := exists_of_mem_encode (by decide) hmem
      exact (recordText_no_newline rec c hc).2 (Char.toNat_inj.mp hnat)
    · exact hold.plain (List.mem_of_mem_drop hmem)
  · by_cases hrest : old.drop (encode (recordText rec)).length = []
    · rw [hrest, List.append_nil]
      exact last_recordText rec
    · rw [List.getLast?_append_of_ne_nil _ hrest, List.getLast?_drop, if_neg (by simpa using hrest)]
      rcases hold.shape with rfl | ⟨hlast, -⟩
      · exact absurd List.drop_nil hrest
      · exact hlast

/-- Of what a file can hold, JSON is only a payload by itself. -/
theorem loads_holds {asked : List Members} {bytes : List UInt8} (h : Holds asked bytes) {text : List Char} {v : Value}
    (htext : decodeStrict bytes = some text) (hloads : loads (universalNewlines text) = some v) :
    ∃ rec ∈ asked, v = .object rec := by
  have hbytes := encode_of_decodeStrict htext
  have hplain : '\r' ∉ text := by
    intro hmem
    refine h.plain (hbytes ▸ List.mem_flatMap.mpr ⟨'\r', hmem, ?_⟩)
    decide
  rw [universalNewlines_eq_self hplain] at hloads
  rcases h.shape with rfl | ⟨hlast, rec, hrec, rest, rfl⟩
  · have hnone : decodeStrict [] = some [] := decodeStrict_encode []
    rw [hnone] at htext
    rw [← Option.some.inj htext] at hloads
    cases hloads
  · refine ⟨rec, hrec, ?_⟩
    rw [decodeStrict_append] at htext
    obtain ⟨more, hmore, rfl⟩ := Option.map_eq_some_iff.mp htext
    by_cases hblank : skipWhitespace more = []
    · -- what ends in a brace is not blank, so there is nothing behind the payload
      have hall : ∀ c ∈ more, isWhitespace c = true := List.dropWhile_eq_nil_iff.mp hblank
      have hnothing : rest = [] := by
        by_contra hrest
        rw [List.getLast?_append_of_ne_nil _ hrest, ← encode_of_decodeStrict hmore] at hlast
        obtain ⟨c, hc, hnat⟩ := exists_of_mem_encode (by decide) (List.mem_of_getLast? hlast)
        have hbrace : c = '}' := Char.toNat_inj.mp hnat
        exact absurd (hall c hc) (by rw [hbrace]; decide)
      have hend : more = [] := by
        have hnone : decodeStrict [] = some [] := decodeStrict_encode []
        rw [hnothing, hnone] at hmore
        exact (Option.some.inj hmore).symm
      rw [hend, List.append_nil, loads_recordText] at hloads
      exact (Option.some.inj hloads).symm
    · have hhead : (recordText rec).head? = some '{' := by
        obtain ⟨body, hbody⟩ := recordText_braces rec
        rw [hbody]
        rfl
      rw [loads_more (loads_recordText rec) hhead hblank] at hloads
      cases hloads

variable {s t : Snapshot Caller} {asked : List Members} {c : Caller}

theorem Settled.goes {stage : Stage} (h : Settled asked s)
    (hstage : ∀ rec, (stage = .asked rec ∨ ∃ file, stage = .opened file rec) → rec ∈ asked) :
    Settled asked (s.goes c stage) where
  content := h.content
  own c' rec hrec := by
    by_cases hc : c' = c
    · subst hc
      exact hstage rec (by simpa [Snapshot.goes] using hrec)
    · exact h.own c' rec (by simpa [Snapshot.goes, hc] using hrec)

omit [DecidableEq Caller] in
theorem Settled.put {file : Nat} {bytes : List UInt8} (h : Settled asked s) (hbytes : Holds asked bytes) :
    Settled asked (s.put file bytes) where
  content file' := by
    by_cases hfile : file' = file
    · subst hfile
      simpa [Snapshot.put] using hbytes
    · simpa [Snapshot.put, hfile] using h.content file'
  own := h.own

theorem Settled.step {a : Publish Caller} (h : Settled asked s) (ha : ∀ rec, a.payload? = some rec → rec ∈ asked)
    (hstep : s.step a = some t) : Settled asked t := by
  cases a with
  | ask c ts epoch domain strategy ns backend =>
      cases hstage : s.stage c <;> simp only [Snapshot.step, hstage] at hstep <;> cases hstep
      exact h.goes (by simpa [Publish.payload?] using ha)
  | openTmp c =>
      cases hstage : s.stage c <;> simp only [Snapshot.step, hstage] at hstep <;> try cases hstep
      rename_i rec
      have hown := h.own c rec (Or.inl hstage)
      cases htmp : s.tmp <;> simp only [htmp] at hstep <;> cases hstep
      · have hnew : Settled asked { s with tmp := some s.next, next := s.next + 1 } := ⟨h.content, h.own⟩
        exact (hnew.put (holds_nil asked)).goes (by simpa using hown)
      · exact (h.put (holds_nil asked)).goes (by simpa using hown)
  | write c =>
      cases hstage : s.stage c <;> simp only [Snapshot.step, hstage] at hstep <;> cases hstep
      rename_i file rec
      have hown := h.own c rec (Or.inr ⟨file, hstage⟩)
      exact (h.put (holds_overwrite hown (h.content file))).goes (by simp)
  | replace c =>
      cases hstage : s.stage c <;> simp only [Snapshot.step, hstage] at hstep <;> try cases hstep
      cases htmp : s.tmp <;> simp only [htmp] at hstep <;> cases hstep
      · exact h.goes (by simp)
      · have hnew : ∀ file, Settled asked { s with path := some file, tmp := none } := fun _ => ⟨h.content, h.own⟩
        exact (hnew _).goes (by simp)
  | fail c =>
      cases hstage : s.stage c <;> simp only [Snapshot.step, hstage] at hstep <;> cases hstep <;>
        exact h.goes (by simp)

/-- A call of set_current that nothing comes between. -/
def undisturbed (c : Caller) (ts : String) (epoch : Int) (domain strategy ns backend : String) : List (Publish Caller) :=
  [.ask c ts epoch domain strategy ns backend, .openTmp c, .write c, .replace c]

/-- An undisturbed call replaces the snapshot by its payload. -/
theorem run_undisturbed {ts : String} {epoch : Int} {domain strategy ns backend : String}
    (h : run Snapshot.step s (undisturbed c ts epoch domain strategy ns backend) = some t) :
    t.path.map t.content = some (encode (recordText (payload ts epoch domain strategy ns backend))) := by
  obtain ⟨s₁, hask, h⟩ := run_cons_eq_some.mp h
  obtain ⟨s₂, hopen, h⟩ := run_cons_eq_some.mp h
  obtain ⟨s₃, hwrite, h⟩ := run_cons_eq_some.mp h
  obtain ⟨s₄, hreplace, h⟩ := run_cons_eq_some.mp h
  obtain rfl := Option.some.inj h
  cases hstage : s.stage c <;> simp only [Snapshot.step, hstage] at hask <;> cases hask
  cases htmp : s.tmp <;>
    simp only [Snapshot.step, Snapshot.goes, Snapshot.put, Function.update_self, htmp] at hopen <;> cases hopen <;>
    simp only [Snapshot.step, Snapshot.goes, Snapshot.put, Function.update_self] at hwrite <;> cases hwrite <;>
    simp only [Snapshot.step, Snapshot.goes, Function.update_self] at hreplace <;> cases hreplace <;>
    simp

/-- However calls of set_current interleave over their one temporary file, a reader gets one of
the payloads they were asked to publish or nothing, never a mixture; and what a call publishes
undisturbed is read as it is, whatever other calls are under way. -/
theorem snapshot_whole {as : List (Publish Caller)} {s : Snapshot Caller} (hrun : run Snapshot.step {} as = some s) :
    (∀ v, readCurrent (s.path.map s.content) = some (some v) → ∃ a ∈ as, ∃ rec, a.payload? = some rec ∧ v = .object rec) ∧
    ∀ {c : Caller} {ts : String} {epoch : Int} {domain strategy ns backend : String} {t : Snapshot Caller},
      run Snapshot.step s (undisturbed c ts epoch domain strategy ns backend) = some t →
        readCurrent (t.path.map t.content) = some (some (.object (payload ts epoch domain strategy ns backend))) := by
  constructor
  · intro v hread
    have hsettled : Settled (as.filterMap Publish.payload?) s := by
      refine along_invariant (P := Settled (as.filterMap Publish.payload?))
        (C := fun _ a => ∀ rec, a.payload? = some rec → rec ∈ as.filterMap Publish.payload?)
        (fun s a t hP ha hstep => hP.step ha hstep) ?_ (along_of_forall ?_) hrun
      · exact ⟨fun _ => holds_nil _, by simp⟩
      · exact fun a ha rec hrec => List.mem_filterMap.mpr ⟨a, ha, hrec⟩
    cases hpath : s.path with
    | none =>
        rw [hpath] at hread
        cases hread
    | some file =>
        rw [hpath] at hread
        obtain ⟨text, htext, hloads⟩ := Option.map_eq_some_iff.mp hread
        obtain ⟨rec, hrec, rfl⟩ := loads_holds (hsettled.content file) htext hloads
        obtain ⟨a, ha, hpayload⟩ := List.mem_filterMap.mp hrec
        exact ⟨a, ha, rec, hpayload, rfl⟩
  · intro c ts epoch domain strategy ns backend t ht
    have hplain : '\r' ∉ recordText (payload ts epoch domain strategy ns backend) :=
      fun hmem => (recordText_no_newline _ _ hmem).2 rfl
    rw [run_undisturbed ht, readCurrent, decodeStrict_encode, Option.map_some, universalNewlines_eq_self hplain,
      loads_recordText]

/-- A thread writes a short payload into the file that another one has published meanwhile. -/
def tornSnapshot : List (Publish Bool) :=
  [.ask true "t0" 0 "long.example" "fake" "bc0" "lua_bridge", .ask false "t1" 1 "a.io" "fake" "bc1" "lua_bridge",
    .openTmp false, .openTmp true, .write true, .replace true, .write false]

theorem tornSnapshot_whole : ∃ s, run Snapshot.step {} tornSnapshot = some s ∧
    ∀ v, readCurrent (s.path.map s.content) = some (some v) →
      ∃ a ∈ tornSnapshot, ∃ rec, a.payload? = some rec ∧ v = .object rec :=
  ⟨_, rfl, (snapshot_whole rfl).1⟩

end current

end Blockchecks.LiveEvents
