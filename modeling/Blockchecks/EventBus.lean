import Blockchecks.RunControl
import Blockchecks.Runs

namespace Blockchecks.EventBus

open Runs

/-! A bounded queue that drops at its head, and a log that is read with a cursor. -/

section queue

variable {α : Type} {maxsize : Int} {queue log : List α} {next : Nat}

/-- asyncio.Queue.full: a size that is not positive is no bound. -/
def Full (maxsize : Int) (queue : List α) : Prop := 0 < maxsize ∧ maxsize ≤ queue.length

instance (maxsize : Int) (queue : List α) : Decidable (Full maxsize queue) :=
  inferInstanceAs (Decidable (_ ∧ _))

/-- get_nowait on a queue that is full, then put_nowait, which does nothing on one that is
full still. -/
def offer (maxsize : Int) (queue : List α) (entry : α) : List α :=
  let room := if Full maxsize queue then queue.tail else queue
  if Full maxsize room then room else room ++ [entry]

/-- No longer than its bound. -/
def Fits (maxsize : Int) (queue : List α) : Prop := 0 < maxsize → queue.length ≤ maxsize

theorem offer_full (hfit : Fits maxsize queue) (h : Full maxsize queue) (entry : α) :
    offer maxsize queue entry = queue.tail ++ [entry] := by
  have hroom : ¬ Full maxsize queue.tail := by
    rintro ⟨hpos, hlong⟩
    have hle := hfit hpos
    rw [List.length_tail] at hlong
    omega
  simp only [offer, if_pos h, if_neg hroom]

theorem offer_room (h : ¬ Full maxsize queue) (entry : α) : offer maxsize queue entry = queue ++ [entry] := by
  simp only [offer, if_neg h]

theorem offer_length (hfit : Fits maxsize queue) (entry : α) :
    (offer maxsize queue entry).length + (if Full maxsize queue then 1 else 0) = queue.length + 1 := by
  split
  next h =>
    have hpos := h.1.trans_le h.2
    rw [offer_full hfit h, List.length_append, List.length_tail, List.length_singleton]
    omega
  next h => rw [offer_room h, List.length_append, List.length_singleton, Nat.add_zero]

theorem offer_fits (hfit : Fits maxsize queue) (entry : α) : Fits maxsize (offer maxsize queue entry) := by
  intro hpos
  have hle := hfit hpos
  have hlength := offer_length hfit entry
  split at hlength
  next => omega
  next h =>
    have hlt : ¬ maxsize ≤ queue.length := fun hlong => h ⟨hpos, hlong⟩
    omega

theorem offer_sublist (hfit : Fits maxsize queue) (entry : α) :
    (offer maxsize queue entry).Sublist (queue ++ [entry]) := by
  by_cases h : Full maxsize queue
  · rw [offer_full hfit h]
    exact (List.tail_sublist queue).append_right [entry]
  · rw [offer_room h]

/-- The place of the oldest entry that a reader at this place of the log can still get. -/
def oldest (maxsize : Int) (log : List α) (next : Nat) : Nat :=
  if 0 < maxsize then max next (log.length - maxsize.toNat) else next

def pending (maxsize : Int) (log : List α) (next : Nat) : List α := log.drop (oldest maxsize log next)

theorem oldest_le (h : next ≤ log.length) : oldest maxsize log next ≤ log.length := by
  rw [oldest]
  split <;> omega

theorem pending_fits : Fits maxsize (pending maxsize log next) := by
  intro hpos
  rw [pending, List.length_drop, oldest, if_pos hpos]
  omega

/-- A queue that drops at its head holds what the reader of the log can still get. -/
theorem offer_pending (h : next ≤ log.length) (entry : α) :
    offer maxsize (pending maxsize log next) entry = pending maxsize (log ++ [entry]) next := by
  have hle : oldest maxsize log next ≤ log.length := oldest_le h
  have hlength : (pending maxsize log next).length = log.length - oldest maxsize log next := List.length_drop
  by_cases hfull : Full maxsize (pending maxsize log next)
  · have ⟨hpos, hlong⟩ := hfull
    have hplace : oldest maxsize (log ++ [entry]) next = oldest maxsize log next + 1 := by
      rw [hlength] at hlong
      simp only [oldest, if_pos hpos, List.length_append, List.length_singleton] at hlong ⊢
      omega
    rw [offer_full pending_fits hfull, pending, pending, hplace, List.tail_drop,
      List.drop_append_of_le_length]
    rw [hlength] at hlong
    omega
  · have hplace : oldest maxsize (log ++ [entry]) next = oldest maxsize log next := by
      rw [oldest, oldest]
      split
      next hpos =>
        have hshort : ¬ maxsize ≤ (pending maxsize log next).length := fun hlong => hfull ⟨hpos, hlong⟩
        rw [hlength, oldest, if_pos hpos] at hshort
        rw [List.length_append, List.length_singleton]
        omega
      next => rfl
    rw [offer_room hfull, pending, pending, hplace, List.drop_append_of_le_length hle]

theorem pending_cons {entry : α} {rest : List α} (h : pending maxsize log next = entry :: rest) :
    log[oldest maxsize log next]? = some entry ∧
      pending maxsize log (oldest maxsize log next + 1) = rest := by
  have hget : log[oldest maxsize log next]? = some entry := by
    rw [← List.head?_drop]
    exact congrArg List.head? h
  have hplace : oldest maxsize log (oldest maxsize log next + 1) = oldest maxsize log next + 1 := by
    simp only [oldest]
    split <;> omega
  refine ⟨hget, ?_⟩
  rw [pending, hplace, ← List.tail_drop]
  exact congrArg List.tail h

end queue

section rel

variable {Id α β : Type} {R S : α → β → Prop} {x : α} {y : β}

theorem rel_some {o : Option β} (h : Option.Rel R (some x) o) : ∃ y, o = some y ∧ R x y := by
  cases h with
  | some hxy => exact ⟨_, rfl, hxy⟩

theorem rel_none {o : Option β} (h : Option.Rel R none o) : o = none := by
  cases h
  rfl

theorem rel_map {f : α → α} (hf : ∀ x y, R x y → S (f x) y) {o : Option α} {o' : Option β}
    (h : Option.Rel R o o') : Option.Rel S (o.map f) o' := by
  cases h with
  | some hxy => exact .some (hf _ _ hxy)
  | none => exact .none

theorem rel_update [DecidableEq Id] {s : Id → Option α} {t : Id → Option β} (h : ∀ id, Option.Rel R (s id) (t id))
    (id : Id) (hxy : R x y) (other : Id) :
    Option.Rel R (Function.update s id (some x) other) (Function.update t id (some y) other) := by
  by_cases hother : other = id
  · subst hother
    rw [Function.update_self, Function.update_self]
    exact .some hxy
  · rw [Function.update_of_ne hother, Function.update_of_ne hother]
    exact h other

end rel

/-! What the client of an event stream makes of its text. -/

/-- A client amid a text: the line so far, whether a carriage return was read last, and the
fields of the event so far. -/
structure EventSource where
  line : List Char
  afterCr : Bool
  type : List Char
  data : List Char
  dispatched : List (List Char × List Char)

namespace EventSource

/-- The name of a field, and its value without one blank in front. -/
def field (line : List Char) : List Char × List Char :=
  (line.takeWhile (· ≠ ':'), match line.dropWhile (· ≠ ':') with
    | ':' :: ' ' :: value => value
    | ':' :: value => value
    | _ => [])

def dispatch (s : EventSource) : EventSource :=
  if s.data = [] then { s with type := [], data := [] }
  else
    { s with
      type := []
      data := []
      dispatched := s.dispatched ++ [(if s.type = [] then "message".toList else s.type, s.data.dropLast)] }

/-- An empty line ends an event. A line that begins with a colon has a field without a name. -/
def endLine (s : EventSource) : EventSource :=
  let t := { s with line := [] }
  if s.line = [] then t.dispatch
  else if (field s.line).1 = "event".toList then { t with type := (field s.line).2 }
  else if (field s.line).1 = "data".toList then { t with data := t.data ++ (field s.line).2 ++ ['\n'] }
  else t

def read (s : EventSource) (c : Char) : EventSource :=
  if c = '\n' then if s.afterCr then { s with afterCr := false } else s.endLine
  else if c = '\r' then { s.endLine with afterCr := true }
  else { s with line := s.line ++ [c], afterCr := false }

def feed (s : EventSource) (text : List Char) : EventSource := text.foldl read s

/-- Between two events. -/
def between (dispatched : List (List Char × List Char)) : EventSource := ⟨[], false, [], [], dispatched⟩

variable {s : EventSource} {text line payload type : List Char} {dispatched : List (List Char × List Char)}

theorem feed_append (s : EventSource) (text more : List Char) : s.feed (text ++ more) = (s.feed text).feed more :=
  List.foldl_append

theorem dispatched_dispatch (s : EventSource) : s.dispatched <+: s.dispatch.dispatched := by
  rw [dispatch]
  split
  · exact List.prefix_rfl
  · exact List.prefix_append ..

theorem dispatched_endLine (s : EventSource) : s.dispatched <+: s.endLine.dispatched := by
  simp only [endLine]
  split
  · exact dispatched_dispatch { s with line := [] }
  split
  · exact List.prefix_rfl
  split <;> exact List.prefix_rfl

theorem dispatched_read (s : EventSource) (c : Char) : s.dispatched <+: (s.read c).dispatched := by
  rw [read]
  split
  · split
    · exact List.prefix_rfl
    · exact s.dispatched_endLine
  split
  · exact s.dispatched_endLine
  · exact List.prefix_rfl

/-- Text that comes later takes back nothing. -/
theorem dispatched_feed (s : EventSource) (text : List Char) : s.dispatched <+: (s.feed text).dispatched := by
  induction text generalizing s with
  | nil => exact List.prefix_rfl
  | cons c text ih => exact (s.dispatched_read c).trans (ih (s.read c))

def OneLine (text : List Char) : Prop := '\n' ∉ text ∧ '\r' ∉ text

theorem feed_line (h : OneLine text) (hcr : s.afterCr = false) :
    s.feed text = { s with line := s.line ++ text } := by
  induction text generalizing s with
  | nil => rw [List.append_nil]; rfl
  | cons c text ih =>
      obtain ⟨hlf, hcr'⟩ := h
      rw [List.mem_cons, not_or] at hlf hcr'
      have hread : s.read c = { s with line := s.line ++ [c] } := by
        rw [read, if_neg (Ne.symm hlf.1), if_neg (Ne.symm hcr'.1), ← hcr]
      have hrest := ih (s := s.read c) ⟨hlf.2, hcr'.2⟩ (by rw [hread]; exact hcr)
      rw [feed, List.foldl_cons, ← feed, hrest, hread, List.append_assoc, List.singleton_append]

/-- A whole line is read as what its end makes of it. -/
theorem feed_endLine (h : OneLine text) (hcr : s.afterCr = false) (hline : s.line = []) :
    s.feed (text ++ ['\n']) = { s with line := text }.endLine := by
  rw [feed_append, feed_line h hcr, hline, List.nil_append]
  have hread : ({ s with line := text } : EventSource).read '\n' = { s with line := text }.endLine := by
    rw [read, if_pos rfl, hcr]
    rfl
  exact hread

theorem field_name {name value : List Char} (h : ':' ∉ name) :
    field (name ++ ':' :: ' ' :: value) = (name, value) := by
  have hname : ∀ c ∈ name, decide (c ≠ ':') = true := fun c hc => decide_eq_true fun heq => h (heq ▸ hc)
  rw [field, List.takeWhile_append_of_pos hname, List.dropWhile_append_of_pos hname]
  simp

theorem endLine_event {value : List Char} (hline : s.line = "event".toList ++ ':' :: ' ' :: value) :
    s.endLine = { s with line := [], type := value } := by
  have hcolon : ':' ∉ "event".toList := by decide
  have hempty : s.line ≠ [] := by rw [hline]; exact List.append_ne_nil_of_right_ne_nil _ (List.cons_ne_nil _ _)
  have hfield : field s.line = ("event".toList, value) := by rw [hline, field_name hcolon]
  rw [endLine, if_neg hempty, hfield, if_pos rfl]

theorem endLine_data {value : List Char} (hline : s.line = "data".toList ++ ':' :: ' ' :: value) :
    s.endLine = { s with line := [], data := s.data ++ value ++ ['\n'] } := by
  have hcolon : ':' ∉ "data".toList := by decide
  have hother : "data".toList ≠ "event".toList := by decide
  have hempty : s.line ≠ [] := by rw [hline]; exact List.append_ne_nil_of_right_ne_nil _ (List.cons_ne_nil _ _)
  have hfield : field s.line = ("data".toList, value) := by rw [hline, field_name hcolon]
  rw [endLine, if_neg hempty, hfield, if_neg hother, if_pos rfl]

theorem endLine_comment {value : List Char} (hline : s.line = ':' :: ' ' :: value) :
    s.endLine = { s with line := [] } := by
  have hevent : [] ≠ "event".toList := by decide
  have hdata : [] ≠ "data".toList := by decide
  have hempty : s.line ≠ [] := by rw [hline]; exact List.cons_ne_nil _ _
  have hfield : field s.line = ([], value) := by rw [hline]; exact field_name List.not_mem_nil
  rw [endLine, if_neg hempty, hfield, if_neg hevent, if_neg hdata]

/-- The empty line after an event. -/
theorem endLine_blank (hline : s.line = []) (htype : s.type ≠ []) (hdata : s.data = payload ++ ['\n']) :
    s.endLine = { s with line := [], type := [], data := [], dispatched := s.dispatched ++ [(s.type, payload)] } := by
  have hsome : s.data ≠ [] := by rw [hdata]; exact List.append_ne_nil_of_right_ne_nil _ (List.cons_ne_nil _ _)
  rw [endLine, if_pos hline, dispatch, if_neg hsome, if_neg htype, hdata, List.dropLast_concat]

end EventSource

open EventSource

/-- What _stream_events writes for one event. -/
def frame (type payload : List Char) : List Char :=
  "event: ".toList ++ type ++ ['\n'] ++ ("data: ".toList ++ (payload ++ ['\n', '\n']))

def heartbeat : List Char := ": heartbeat".toList ++ ['\n', '\n']

theorem oneLine_nil : OneLine [] := ⟨List.not_mem_nil, List.not_mem_nil⟩

theorem OneLine.append {text more : List Char} (h : OneLine text) (hmore : OneLine more) : OneLine (text ++ more) :=
  ⟨List.not_mem_append h.1 hmore.1, List.not_mem_append h.2 hmore.2⟩

theorem feed_heartbeat (dispatched : List (List Char × List Char)) :
    (between dispatched).feed heartbeat = between dispatched := by
  have htext : heartbeat = (": heartbeat".toList ++ ['\n']) ++ ([] ++ ['\n']) := rfl
  have hline : OneLine ": heartbeat".toList := ⟨by decide, by decide⟩
  have hcomment : (between dispatched).feed (": heartbeat".toList ++ ['\n']) = between dispatched :=
    (feed_endLine hline rfl rfl).trans (endLine_comment rfl)
  have hblank : (between dispatched).feed ([] ++ ['\n']) = between dispatched := feed_endLine oneLine_nil rfl rfl
  rw [htext, feed_append, hcomment, hblank]

theorem feed_frame {type payload : List Char} (htype : OneLine type) (hpayload : OneLine payload)
    (hempty : type ≠ []) (dispatched : List (List Char × List Char)) :
    (between dispatched).feed (frame type payload) = between (dispatched ++ [(type, payload)]) := by
  have hevent : OneLine ("event: ".toList ++ type) := OneLine.append ⟨by decide, by decide⟩ htype
  have hdata : OneLine ("data: ".toList ++ payload) := OneLine.append ⟨by decide, by decide⟩ hpayload
  have htext : frame type payload = ("event: ".toList ++ type ++ ['\n']) ++
      (("data: ".toList ++ payload ++ ['\n']) ++ ([] ++ ['\n'])) := by
    have hlines (head line : List Char) : head ++ (line ++ (payload ++ ['\n', '\n'])) =
        head ++ ((line ++ payload ++ ['\n']) ++ ([] ++ ['\n'])) := by simp
    exact hlines _ _
  have hfirst : (between dispatched).feed ("event: ".toList ++ type ++ ['\n']) =
      ⟨[], false, type, [], dispatched⟩ :=
    (feed_endLine hevent rfl rfl).trans (endLine_event rfl)
  have hsecond : feed ⟨[], false, type, [], dispatched⟩ ("data: ".toList ++ payload ++ ['\n']) =
      ⟨[], false, type, payload ++ ['\n'], dispatched⟩ :=
    (feed_endLine hdata rfl rfl).trans (endLine_data rfl)
  have hthird : feed ⟨[], false, type, payload ++ ['\n'], dispatched⟩ ([] ++ ['\n']) =
      between (dispatched ++ [(type, payload)]) :=
    (feed_endLine oneLine_nil rfl rfl).trans (endLine_blank rfl hempty rfl)
  rw [htext, feed_append, feed_append, hfirst, hsecond, hthird]

/-! The bus of the server, and the same over one log. -/

open Json

abbrev Event := List (String × Value)

/-- A client of /api/events: its queue, whether the bus still knows it, and what was
written to it after the head of the response. -/
structure Stream where
  maxsize : Int
  queue : List Event
  live : Bool
  body : List Char

inductive Action (Id : Type) where
  | connect (id : Id) (maxsize : Int)
  | publish (event : Event)
  | deliver (id : Id) (drained : Bool)
  | beat (id : Id) (drained : Bool)
  | stop (id : Id)

/-- A reader of the log of all events, the place it goes on at, and what it has got. -/
structure Reader where
  maxsize : Int
  next : Nat
  live : Bool
  got : List Event

structure Log (Id : Type) where
  published : List Event
  reader : Id → Option Reader

section bus

variable {Id : Type} [DecidableEq Id] (conv : RunControl.Conversions)

/-- str(event.get("type") or "event") -/
def eventType (event : Event) : List Char :=
  match conv.getTruthy event "type" with
  | some value => (conv.text value).toList
  | none => "event".toList

def payload (event : Event) : List Char := compact.dump (.object event)

/-- publish_event, for one queue. A client that has left is not in the set. -/
def Stream.publish (event : Event) (stream : Stream) : Stream :=
  if stream.live then { stream with queue := offer stream.maxsize stream.queue event } else stream

/-- What the loop of _stream_events does once its queue gives an event. When the drain
fails, the loop ends and the queue is unsubscribed. -/
def Stream.deliver (stream : Stream) (drained : Bool) : Option Stream :=
  if stream.live then
    match stream.queue with
    | [] => none
    | event :: rest => some { stream with
        queue := rest
        live := drained
        body := stream.body ++ frame (eventType conv event) (payload event) }
  else none

def Stream.beat (stream : Stream) (drained : Bool) : Option Stream :=
  if stream.live then some { stream with live := drained, body := stream.body ++ heartbeat } else none

def Stream.stop (stream : Stream) : Option Stream :=
  if stream.live then some { stream with live := false } else none

def step (s : Id → Option Stream) : Action Id → Option (Id → Option Stream)
  | .connect id maxsize =>
      if s id = none then some (Function.update s id (some ⟨maxsize, [], true, []⟩)) else none
  | .publish event => some (fun id => (s id).map (Stream.publish event))
  | .deliver id drained =>
      ((s id).bind (fun stream => stream.deliver conv drained)).map (fun t => Function.update s id (some t))
  | .beat id drained =>
      ((s id).bind (fun stream => stream.beat drained)).map (fun t => Function.update s id (some t))
  | .stop id => ((s id).bind Stream.stop).map (fun t => Function.update s id (some t))

def Reader.deliver (published : List Event) (drained : Bool) (reader : Reader) : Option Reader :=
  if reader.live then
    (published[oldest reader.maxsize published reader.next]?).map (fun event =>
      { reader with
        next := oldest reader.maxsize published reader.next + 1
        live := drained
        got := reader.got ++ [event] })
  else none

def Reader.beat (drained : Bool) (reader : Reader) : Option Reader :=
  if reader.live then some { reader with live := drained } else none

namespace Log

def start : Log Id := ⟨[], fun _ => none⟩

def change (log : Log Id) (id : Id) (f : Reader → Option Reader) : Option (Log Id) :=
  ((log.reader id).bind f).map (fun r => { log with reader := Function.update log.reader id (some r) })

def step (log : Log Id) : Action Id → Option (Log Id)
  | .connect id maxsize =>
      if log.reader id = none then
        some { log with reader := Function.update log.reader id (some ⟨maxsize, log.published.length, true, []⟩) }
      else none
  | .publish event => some { log with published := log.published ++ [event] }
  | .deliver id drained => log.change id (Reader.deliver log.published drained)
  | .beat id drained => log.change id (Reader.beat drained)
  | .stop id => log.change id (Reader.beat false)

end Log

/-- What a client makes of the text so far. -/
def messages (text : List Char) : List (List Char × Option Value) :=
  ((between []).feed text).dispatched.map (fun m => (m.1, loads m.2))

def message (event : Event) : List Char × Option Value := (eventType conv event, some (.object event))

def publications (as : List (Action Id)) : List Event :=
  as.filterMap (fun a => match a with
    | .publish event => some event
    | _ => none)

/-- The bus is to give an event to this client, whose queue is full. -/
def overflow (id : Id) (s : Id → Option Stream) : Action Id → Bool
  | .publish _ => (s id).any (fun stream => stream.live && decide (Full stream.maxsize stream.queue))
  | _ => false

/-- How many steps of a run found the queue of this client full. -/
def overflows (id : Id) : (Id → Option Stream) → List (Action Id) → Nat
  | _, [] => 0
  | s, a :: as => (overflow id s a).toNat + match step conv s a with
      | some t => overflows id t as
      | none => 0

/-- The messages that a client has got or will get. -/
def held (stream : Stream) : List (List Char × Option Value) :=
  messages stream.body ++ stream.queue.map (message conv)

/-- A client shows what a reader of the log has got, and its queue holds what the reader can
still get. -/
structure Shows (published : List Event) (stream : Stream) (reader : Reader) : Prop where
  maxsize : stream.maxsize = reader.maxsize
  live : stream.live = reader.live
  next : reader.next ≤ published.length
  queue : stream.live → stream.queue = pending reader.maxsize published reader.next
  body : (between []).feed stream.body =
    between (reader.got.map (fun event => (eventType conv event, payload event)))

structure Refines (s : Id → Option Stream) (log : Log Id) : Prop where
  streams : ∀ id, Option.Rel (Shows conv log.published) (s id) (log.reader id)
  named : ∀ event ∈ log.published, OneLine (eventType conv event)

variable {conv} {published : List Event} {stream stream' : Stream} {reader : Reader} {event : Event} {drained : Bool}
  {s s' : Id → Option Stream} {log : Log Id} {a : Action Id}

theorem eventType_ne_nil (hrepr : ∀ value, conv.repr value ≠ "") (event : Event) : eventType conv event ≠ [] := by
  have htext : ∀ value, conv.truthy value → conv.text value ≠ "" := by
    intro value hvalue
    cases value with
    | str name => exact of_decide_eq_true hvalue
    | null => cases hvalue
    | bool b => exact hrepr _
    | number n => exact hrepr _
    | array items => exact hrepr _
    | object members => exact hrepr _
  rw [eventType, RunControl.Conversions.getTruthy]
  split
  next value hvalue =>
    have htrue := (Option.filter_eq_some_iff.mp hvalue).2
    exact fun hnil => htext value htrue (String.toList_eq_nil_iff.mp hnil)
  next => decide

theorem payload_oneLine (event : Event) : OneLine (payload event) := by
  have hprintable := compact_writes.dump (.object event)
  have hlf : ¬ Printable '\n' := by decide
  have hcr : ¬ Printable '\r' := by decide
  exact ⟨fun hmem => hlf (hprintable _ hmem), fun hmem => hcr (hprintable _ hmem)⟩

theorem Shows.publish (h : Shows conv published stream reader) (event : Event) :
    Shows conv (published ++ [event]) (stream.publish event) reader := by
  have hnext : reader.next ≤ (published ++ [event]).length :=
    h.next.trans (List.length_append ▸ Nat.le_add_right ..)
  rw [Stream.publish]
  split
  next hlive =>
    refine ⟨h.maxsize, h.live, hnext, fun _ => ?_, h.body⟩
    change offer stream.maxsize stream.queue event = _
    rw [h.maxsize, h.queue hlive, offer_pending h.next]
  next hdead => exact ⟨h.maxsize, h.live, hnext, fun hlive => absurd hlive hdead, h.body⟩

theorem Shows.deliver (h : Shows conv published stream reader) (hrepr : ∀ value, conv.repr value ≠ "")
    (hnamed : ∀ event ∈ published, OneLine (eventType conv event))
    (hs : stream.deliver conv drained = some stream') :
    ∃ reader', reader.deliver published drained = some reader' ∧ Shows conv published stream' reader' := by
  rw [Stream.deliver] at hs
  split at hs
  next hlive =>
    have hqueue := h.queue hlive
    split at hs
    next => cases hs
    next event rest hcons =>
      obtain rfl := Option.some.inj hs
      obtain ⟨hget, hrest⟩ := pending_cons (hqueue.symm.trans hcons)
      obtain ⟨hplace, hmem⟩ := List.getElem?_eq_some_iff.mp hget
      have hline := hnamed event (List.mem_of_getElem? hget)
      refine ⟨_, by rw [Reader.deliver, if_pos (h.live ▸ hlive), hget, Option.map_some], ?_⟩
      refine ⟨h.maxsize, rfl, hplace, fun _ => hrest.symm, ?_⟩
      change (between []).feed (stream.body ++ frame _ _) = _
      rw [feed_append, h.body, feed_frame hline (payload_oneLine event) (eventType_ne_nil hrepr event),
        List.map_append]
      rfl
  next => cases hs

theorem Shows.beat (h : Shows conv published stream reader) (hs : stream.beat drained = some stream') :
    ∃ reader', reader.beat drained = some reader' ∧ Shows conv published stream' reader' := by
  rw [Stream.beat] at hs
  split at hs
  next hlive =>
    obtain rfl := Option.some.inj hs
    refine ⟨_, if_pos (h.live ▸ hlive), h.maxsize, rfl, h.next, fun _ => h.queue hlive, ?_⟩
    change (between []).feed (stream.body ++ heartbeat) = _
    rw [feed_append, h.body, feed_heartbeat]
  next => cases hs

theorem Shows.stop (h : Shows conv published stream reader) (hs : stream.stop = some stream') :
    ∃ reader', reader.beat false = some reader' ∧ Shows conv published stream' reader' := by
  rw [Stream.stop] at hs
  split at hs
  next hlive =>
    obtain rfl := Option.some.inj hs
    exact ⟨_, if_pos (h.live ▸ hlive), h.maxsize, rfl, h.next, fun hfalse => (by cases hfalse), h.body⟩
  next => cases hs

/-- One client goes on as its reader does. -/
theorem Refines.change (h : Refines conv s log) {id : Id} {f : Stream → Option Stream} {g : Reader → Option Reader}
    (hstep : ∀ stream reader stream', Shows conv log.published stream reader → f stream = some stream' →
      ∃ reader', g reader = some reader' ∧ Shows conv log.published stream' reader')
    (hs : ((s id).bind f).map (fun t => Function.update s id (some t)) = some s') :
    ∃ log', log.change id g = some log' ∧ Refines conv s' log' := by
  obtain ⟨stream', hbind, rfl⟩ := Option.map_eq_some_iff.mp hs
  obtain ⟨stream, hstream, hf⟩ := Option.bind_eq_some_iff.mp hbind
  obtain ⟨reader, hreader, hshows⟩ := rel_some (hstream ▸ h.streams id)
  obtain ⟨reader', hg, hshows'⟩ := hstep stream reader stream' hshows hf
  have hchange : log.change id g =
      some { log with reader := Function.update log.reader id (some reader') } := by
    rw [Log.change, hreader, Option.bind_some, hg, Option.map_some]
  exact ⟨_, hchange, rel_update h.streams id hshows', h.named⟩

/-- What a step of the server does, the log does. -/
theorem Refines.step (h : Refines conv s log) (hrepr : ∀ value, conv.repr value ≠ "")
    (htype : ∀ event, a = .publish event → OneLine (eventType conv event)) (hs : step conv s a = some s') :
    ∃ log', log.step a = some log' ∧ Refines conv s' log' := by
  cases a with
  | connect id maxsize =>
      rw [EventBus.step] at hs
      split at hs
      next hnone =>
        obtain rfl := Option.some.inj hs
        have hreader : log.reader id = none := rel_none (hnone ▸ h.streams id)
        have hempty : pending maxsize log.published log.published.length = [] :=
          List.drop_eq_nil_of_le (by rw [oldest]; split <;> omega)
        have hshows : Shows conv log.published ⟨maxsize, [], true, []⟩ ⟨maxsize, log.published.length, true, []⟩ :=
          ⟨rfl, rfl, le_rfl, fun _ => hempty.symm, rfl⟩
        exact ⟨_, if_pos hreader, rel_update h.streams id hshows, h.named⟩
      next => cases hs
  | publish event =>
      obtain rfl := Option.some.inj hs
      refine ⟨_, rfl, fun id => rel_map (fun _ _ hshows => hshows.publish event) (h.streams id), ?_⟩
      intro other hmem
      rcases List.mem_append.mp hmem with hmem | hmem
      · exact h.named other hmem
      · obtain rfl := List.mem_singleton.mp hmem
        exact htype other rfl
  | deliver id drained => exact h.change (fun _ _ _ hshows hf => hshows.deliver hrepr h.named hf) hs
  | beat id drained => exact h.change (fun _ _ _ hshows hf => hshows.beat hf) hs
  | stop id => exact h.change (fun _ _ _ hshows hf => hshows.stop hf) hs

theorem messages_between {text : List Char} {events : List Event}
    (h : (between []).feed text = between (events.map (fun event => (eventType conv event, payload event)))) :
    messages text = events.map (message conv) := by
  rw [messages, h]
  simp only [between, List.map_map]
  refine List.map_congr_left fun event _ => ?_
  exact congrArg (Prod.mk _) (compact_sound.loads_dump _)

theorem refines_run {as : List (Action Id)} (hrepr : ∀ value, conv.repr value ≠ "") (hrefines : Refines conv s log)
    (htype : ∀ event, .publish event ∈ as → OneLine (eventType conv event))
    (h : run (step conv) s as = some s') : ∃ log', run Log.step log as = some log' ∧ Refines conv s' log' := by
  have hC : ∀ a ∈ as, ∀ event, a = .publish event → OneLine (eventType conv event) := by
    rintro a ha event rfl
    exact htype event ha
  exact run_simulation (fun _ _ _ _ hrefines htype hs => hrefines.step hrepr htype hs) hrefines hC h

/-- In every run, a client makes of its stream what a reader with a cursor has got of one log
of all events, and of a stream cut short a part from the front; what is queued for it is
what the reader can still get. -/
theorem streamed_reads_log {as : List (Action Id)} (hrepr : ∀ value, conv.repr value ≠ "")
    (htype : ∀ event, .publish event ∈ as → OneLine (eventType conv event))
    (h : run (step conv) (fun _ => none) as = some s) :
    ∃ log, run Log.step Log.start as = some log ∧ ∀ id stream, s id = some stream →
      ∃ reader, log.reader id = some reader ∧
        messages stream.body = reader.got.map (message conv) ∧
        (∀ text, text <+: stream.body → messages text <+: reader.got.map (message conv)) ∧
        (stream.live → stream.queue = pending reader.maxsize log.published reader.next) := by
  have hstart : Refines conv (fun _ : Id => none) Log.start :=
    ⟨fun _ => .none, fun _ h => absurd h List.not_mem_nil⟩
  obtain ⟨log, hrun, hrefines⟩ := refines_run hrepr hstart htype h
  refine ⟨log, hrun, fun id stream hstream => ?_⟩
  obtain ⟨reader, hreader, hshows⟩ := rel_some (hstream ▸ hrefines.streams id)
  have hwhole := messages_between hshows.body
  refine ⟨reader, hreader, hwhole, ?_, hshows.queue⟩
  rintro text ⟨rest, hrest⟩
  rw [← hwhole, messages, messages, ← hrest, feed_append]
  exact (dispatched_feed _ rest).map _

def plainConversions : RunControl.Conversions :=
  ⟨fun _ => none, fun _ => false, fun _ => none, fun _ => "value"⟩

def probeStart : Event := [("type", .str "probe_start")]

def laterEvents : List (Action Nat) := [.publish probeStart, .beat 0 true, .publish [], .deliver 0 true]

def firstEvents : List (Action Nat) := .connect 0 1 :: laterEvents

theorem firstEvents_oneLine (event : Event) (h : .publish event ∈ firstEvents) :
    OneLine (eventType plainConversions event) := by
  simp only [firstEvents, laterEvents, List.mem_cons, Action.publish.injEq, reduceCtorEq, List.not_mem_nil, or_false,
    false_or] at h
  rcases h with rfl | rfl <;> exact ⟨by decide, by decide⟩

theorem firstEvents_read : ∃ s, run (step plainConversions) (fun _ => none) firstEvents = some s ∧
    ∃ log, run Log.step Log.start firstEvents = some log ∧ ∀ id stream, s id = some stream →
      ∃ reader, log.reader id = some reader ∧
        messages stream.body = reader.got.map (message plainConversions) ∧
        (∀ text, text <+: stream.body → messages text <+: reader.got.map (message plainConversions)) ∧
        (stream.live → stream.queue = pending reader.maxsize log.published reader.next) := by
  obtain ⟨s, hs⟩ : ∃ s, run (step plainConversions) (fun _ => none) firstEvents = some s := ⟨_, rfl⟩
  have hvalue : "value" ≠ "" := by decide
  have hrepr : ∀ value, plainConversions.repr value ≠ "" := fun _ => hvalue
  exact ⟨s, hs, streamed_reads_log hrepr firstEvents_oneLine hs⟩

/-- Between two states of a client, what it holds grows by the events of the bus, less the
oldest of what it was to get, one for each overflow. -/
structure Keeps (conv : RunControl.Conversions) (stream stream' : Stream) (events : List Event) (lost : Nat) : Prop where
  live : stream.live
  sublist : (held conv stream').Sublist (held conv stream ++ events.map (message conv))
  count : (held conv stream').length + lost = (held conv stream).length + events.length

theorem Keeps.same (hlive : stream.live) (h : held conv stream' = held conv stream) : Keeps conv stream stream' [] 0 :=
  ⟨hlive, by rw [h, List.map_nil, List.append_nil], by rw [h]; rfl⟩

theorem Keeps.trans {last : Stream} {events more : List Event} {lost later : Nat}
    (h : Keeps conv stream stream' events lost) (hlast : Keeps conv stream' last more later) :
    Keeps conv stream last (events ++ more) (lost + later) := by
  refine ⟨h.live, ?_, ?_⟩
  · rw [List.map_append, ← List.append_assoc]
    exact hlast.sublist.trans (h.sublist.append_right _)
  · have hfirst := h.count
    have hsecond := hlast.count
    rw [List.length_append]
    omega

theorem Shows.keeps_publish (h : Shows conv published stream reader) (event : Event)
    (hlive : (stream.publish event).live) :
    Keeps conv stream (stream.publish event) [event] (stream.live && decide (Full stream.maxsize stream.queue)).toNat := by
  have hstream : stream.live := by
    rw [Stream.publish] at hlive
    split at hlive <;> assumption
  have hfit : Fits stream.maxsize stream.queue := by
    rw [h.maxsize, h.queue hstream]
    exact pending_fits
  have hpublish : stream.publish event = { stream with queue := offer stream.maxsize stream.queue event } :=
    if_pos hstream
  rw [hpublish, hstream, Bool.true_and]
  refine ⟨hstream, ?_, ?_⟩
  · rw [held, held, List.append_assoc, ← List.map_append]
    exact ((offer_sublist hfit event).map _).append_left _
  · have hlength := offer_length hfit event
    rw [held, held, List.length_append, List.length_append, List.length_map, List.length_map,
      List.length_singleton]
    dsimp only
    split at hlength
    next hfull =>
      rw [decide_eq_true hfull, Bool.toNat_true]
      omega
    next hroom =>
      rw [decide_eq_false hroom, Bool.toNat_false]
      omega

theorem Shows.keeps_deliver (h : Shows conv published stream reader) (hrepr : ∀ value, conv.repr value ≠ "")
    (hnamed : ∀ event ∈ published, OneLine (eventType conv event))
    (hs : stream.deliver conv drained = some stream') : Keeps conv stream stream' [] 0 := by
  obtain ⟨reader', hreader, hshows⟩ := h.deliver hrepr hnamed hs
  rw [Stream.deliver] at hs
  split at hs
  next hlive =>
    split at hs
    next => cases hs
    next event rest hcons =>
      obtain rfl := Option.some.inj hs
      refine .same hlive ?_
      rw [Reader.deliver, if_pos (h.live ▸ hlive)] at hreader
      have hget := (pending_cons ((h.queue hlive).symm.trans hcons)).1
      rw [hget, Option.map_some] at hreader
      obtain rfl := Option.some.inj hreader
      rw [held, held, messages_between h.body, messages_between hshows.body, hcons, List.map_append,
        List.append_assoc]
      rfl
  next => cases hs

theorem Shows.keeps_beat (h : Shows conv published stream reader) (hs : stream.beat drained = some stream') :
    Keeps conv stream stream' [] 0 := by
  obtain ⟨reader', hreader, hshows⟩ := h.beat hs
  rw [Stream.beat] at hs
  split at hs
  next hlive =>
    obtain rfl := Option.some.inj hs
    refine .same hlive ?_
    rw [Reader.beat, if_pos (h.live ▸ hlive)] at hreader
    obtain rfl := Option.some.inj hreader
    rw [held, held, messages_between h.body, messages_between hshows.body]
  next => cases hs

/-- A step of one client, seen from a client. -/
theorem Refines.keeps_change (h : Refines conv s log) {id other : Id} {f : Stream → Option Stream}
    (hstep : ∀ stream reader stream', Shows conv log.published stream reader → f stream = some stream' →
      stream'.live → Keeps conv stream stream' [] 0)
    (hs : ((s other).bind f).map (fun t => Function.update s other (some t)) = some s')
    (hstream : s id = some stream) :
    ∃ stream', s' id = some stream' ∧ (stream'.live → Keeps conv stream stream' [] 0) := by
  obtain ⟨changed, hbind, rfl⟩ := Option.map_eq_some_iff.mp hs
  obtain ⟨before, hbefore, hf⟩ := Option.bind_eq_some_iff.mp hbind
  by_cases hid : id = other
  · subst hid
    obtain rfl := Option.some.inj (hbefore.symm.trans hstream)
    obtain ⟨reader, _, hshows⟩ := rel_some (hbefore ▸ h.streams id)
    exact ⟨changed, Function.update_self .., hstep before reader changed hshows hf⟩
  · exact ⟨stream, by rw [Function.update_of_ne hid, hstream], fun hlive => .same hlive rfl⟩

theorem Refines.keeps_step (h : Refines conv s log) (hrepr : ∀ value, conv.repr value ≠ "") {id : Id}
    (hs : EventBus.step conv s a = some s') (hstream : s id = some stream) :
    ∃ stream', s' id = some stream' ∧
      (stream'.live → Keeps conv stream stream' (publications [a]) (overflow id s a).toNat) := by
  cases a with
  | connect other maxsize =>
      rw [EventBus.step] at hs
      split at hs
      next hnone =>
        obtain rfl := Option.some.inj hs
        have hid : id ≠ other := by
          rintro rfl
          rw [hnone] at hstream
          cases hstream
        exact ⟨stream, by rw [Function.update_of_ne hid, hstream], fun hlive => .same hlive rfl⟩
      next => cases hs
  | publish event =>
      obtain rfl := Option.some.inj hs
      obtain ⟨reader, _, hshows⟩ := rel_some (hstream ▸ h.streams id)
      refine ⟨stream.publish event, congrArg (Option.map (Stream.publish event)) hstream, fun hlive => ?_⟩
      rw [overflow, hstream]
      exact hshows.keeps_publish event hlive
  | deliver other drained =>
      exact h.keeps_change (fun _ _ _ hshows hf _ => hshows.keeps_deliver hrepr h.named hf) hs hstream
  | beat other drained => exact h.keeps_change (fun _ _ _ hshows hf _ => hshows.keeps_beat hf) hs hstream
  | stop other =>
      refine h.keeps_change (fun _ _ _ _ hf hlive => ?_) hs hstream
      rw [Stream.stop] at hf
      split at hf
      next =>
        obtain rfl := Option.some.inj hf
        cases hlive
      next => cases hf

theorem Refines.keeps_run {as : List (Action Id)} (h : Refines conv s log) (hrepr : ∀ value, conv.repr value ≠ "")
    (htype : ∀ event, .publish event ∈ as → OneLine (eventType conv event)) {id : Id}
    (hs : run (EventBus.step conv) s as = some s') (hstream : s id = some stream) :
    ∃ stream', s' id = some stream' ∧
      (stream'.live → Keeps conv stream stream' (publications as) (overflows conv id s as)) := by
  induction as generalizing s log stream with
  | nil =>
      obtain rfl := Option.some.inj hs
      exact ⟨stream, hstream, fun hlive => .same hlive rfl⟩
  | cons a as ih =>
      obtain ⟨t, ht, hr⟩ := run_cons_eq_some.mp hs
      obtain ⟨next, hnext, hfirst⟩ := h.keeps_step hrepr ht hstream
      have ha : ∀ event, a = .publish event → OneLine (eventType conv event) :=
        fun event ha => htype event (ha ▸ List.mem_cons_self)
      obtain ⟨log', _, hrefines⟩ := h.step hrepr ha ht
      obtain ⟨last, hlast, hrest⟩ := ih hrefines (fun event hmem => htype event (List.mem_cons_of_mem a hmem)) hr hnext
      refine ⟨last, hlast, fun hlive => ?_⟩
      have hkeeps := hrest hlive
      have hall := (hfirst hkeeps.live).trans hkeeps
      have hevents : publications (a :: as) = publications [a] ++ publications as :=
        List.filterMap_append (l := [a])
      rw [overflows, ht, hevents]
      exact hall

/-- What a client that is still connected has got and is to get are the events since it
connected, in their order and without as many of them as found its queue full: all of them
if and only if none did. -/
theorem streamed_all_but_overflows {before after : List (Action Id)} {id : Id} {maxsize : Int}
    {r : Id → Option Stream} (hrepr : ∀ value, conv.repr value ≠ "")
    (htype : ∀ event, .publish event ∈ before ++ after → OneLine (eventType conv event))
    (hbefore : run (step conv) (fun _ => none) before = some r) (hconnect : step conv r (.connect id maxsize) = some s)
    (hafter : run (step conv) s after = some s') (hstream : s' id = some stream) (hlive : stream.live) :
    (held conv stream).Sublist ((publications after).map (message conv)) ∧
      (held conv stream).length + overflows conv id s after = (publications after).length ∧
      (held conv stream = (publications after).map (message conv) ↔ overflows conv id s after = 0) := by
  have hstart : Refines conv (fun _ : Id => none) Log.start :=
    ⟨fun _ => .none, fun _ h => absurd h List.not_mem_nil⟩
  obtain ⟨log, _, hrefines⟩ := refines_run hrepr hstart
    (fun event hmem => htype event (List.mem_append_left after hmem)) hbefore
  obtain ⟨log', _, hrefines'⟩ := hrefines.step hrepr (fun event hevent => by cases hevent) hconnect
  have hfresh : s id = some ⟨maxsize, [], true, []⟩ := by
    rw [step] at hconnect
    split at hconnect
    next =>
      obtain rfl := Option.some.inj hconnect
      exact Function.update_self ..
    next => cases hconnect
  obtain ⟨last, hlast, hkeeps⟩ := hrefines'.keeps_run hrepr
    (fun event hmem => htype event (List.mem_append_right before hmem)) hafter hfresh
  obtain rfl := Option.some.inj (hlast.symm.trans hstream)
  have hall := hkeeps hlive
  have hsublist := hall.sublist
  have hcount := hall.count
  have hnothing : held conv ⟨maxsize, [], true, []⟩ = [] := rfl
  rw [hnothing, List.nil_append] at hsublist
  rw [hnothing, List.length_nil, Nat.zero_add] at hcount
  refine ⟨hsublist, hcount, fun heq => ?_, fun hzero => ?_⟩
  · rw [heq, List.length_map] at hcount
    omega
  · rw [hzero, Nat.add_zero] at hcount
    exact hsublist.eq_of_length (by rw [List.length_map, hcount])

theorem secondEvent_overflows : ∃ s t, step plainConversions (fun _ => none) (.connect 0 1) = some s ∧
    run (step plainConversions) s laterEvents = some t ∧ ∃ stream, t 0 = some stream ∧
      (held plainConversions stream).Sublist ((publications laterEvents).map (message plainConversions)) ∧
      (held plainConversions stream).length + 1 = (publications laterEvents).length ∧
      held plainConversions stream ≠ (publications laterEvents).map (message plainConversions) := by
  obtain ⟨s, hs⟩ : ∃ s, step plainConversions (fun _ => none) (.connect (0 : Nat) 1) = some s := ⟨_, rfl⟩
  obtain ⟨t, ht⟩ : ∃ t, run (step plainConversions) s laterEvents = some t := by
    obtain rfl := Option.some.inj hs
    exact ⟨_, rfl⟩
  have hstream : ∃ stream, t 0 = some stream ∧ stream.live ∧ overflows plainConversions 0 s laterEvents = 1 := by
    obtain rfl := Option.some.inj hs
    obtain rfl := Option.some.inj ht
    exact ⟨_, rfl, rfl, rfl⟩
  obtain ⟨stream, hstream, hlive, hlost⟩ := hstream
  have hvalue : "value" ≠ "" := by decide
  have hrepr : ∀ value, plainConversions.repr value ≠ "" := fun _ => hvalue
  have htype : ∀ event, .publish event ∈ [] ++ laterEvents → OneLine (eventType plainConversions event) :=
    fun event hmem => firstEvents_oneLine event (List.mem_cons_of_mem _ hmem)
  obtain ⟨hsublist, hcount, hall⟩ := streamed_all_but_overflows hrepr htype rfl hs ht hstream hlive
  rw [hlost] at hcount hall
  exact ⟨s, t, hs, ht, stream, hstream, hsublist, hcount, fun heq => absurd (hall.mp heq) (by decide)⟩

end bus

end Blockchecks.EventBus
