import Blockchecks.LineReader
import Blockchecks.RunControl
import Blockchecks.TextLines
import Blockchecks.Utf8Replace

namespace Blockchecks.ProbeServer

open Json StrategyText

/-! Bytes of a connection. -/

/-- str.encode() -/
def encode (text : List Char) : List UInt8 := text.flatMap String.utf8EncodeChar

/-- bytes.decode("utf-8") -/
def decodeStrict (bytes : List UInt8) : Option (List Char) := bytes.toByteArray.utf8Decode?.map Array.toList

/-- The limit of an asyncio.StreamReader. -/
def streamLimit : Nat := 0x10000

/-- The next line with its end, and what is behind it. A line over the limit is a ValueError. -/
def readline (stream : List UInt8) : Option (List UInt8 × List UInt8) :=
  if streamLimit < (stream.takeWhile (· ≠ LineReader.newline)).length then none
  else some (match stream.dropWhile (· ≠ LineReader.newline) with
    | [] => (stream, [])
    | stop :: rest => (stream.takeWhile (· ≠ LineReader.newline) ++ [stop], rest))

section stream

variable {text : List Char} {line rest : List UInt8}

theorem decodeStrict_encode (text : List Char) : decodeStrict (encode text) = some text := by
  have hencode : (encode text).toByteArray = text.utf8Encode := rfl
  rw [decodeStrict, hencode, List.utf8Decode?_utf8Encode, Option.map_some]

theorem encode_append (text more : List Char) : encode (text ++ more) = encode text ++ encode more :=
  List.flatMap_append

theorem decodeStrict_append (text : List Char) (rest : List UInt8) :
    decodeStrict (encode text ++ rest) = (decodeStrict rest).map (text ++ ·) := by
  induction text with
  | nil => simp [encode]
  | cons c text ih =>
      have hfirst : (encode (c :: text) ++ rest).toByteArray =
          [c].utf8Encode ++ (encode text ++ rest).toByteArray := by
        simp [encode, List.utf8Encode, List.toByteArray_append]
      have hdecode := congrArg (Option.map Array.toList)
        (ByteArray.utf8Decode?_utf8Encode_singleton_append (c := c) (l := (encode text ++ rest).toByteArray))
      rw [decodeStrict, hfirst, hdecode, Option.map_map]
      have htail := congrArg (Option.map (c :: ·)) ih
      rw [decodeStrict, Option.map_map, Option.map_map] at htail
      simpa [Function.comp_def] using htail

theorem encode_of_decodeStrict (h : decodeStrict rest = some text) : encode text = rest := by
  obtain ⟨chars, hchars, rfl⟩ := Option.map_eq_some_iff.mp h
  have hsome : (rest.toByteArray.utf8Decode?).isSome := by rw [hchars]; rfl
  have hencode := ByteArray.utf8Encode_get_utf8Decode? (b := rest.toByteArray) (h := hsome)
  simp only [hchars, Option.get_some] at hencode
  have hbytes : (encode chars.toList).toByteArray = rest.toByteArray := hencode
  exact List.toByteArray_inj.mp hbytes

/-- A byte under 0x80 is a character by itself. -/
theorem mem_utf8EncodeChar {b : UInt8} (hb : b.toNat < 0x80) {c : Char} (h : b ∈ String.utf8EncodeChar c) :
    c.toNat = b.toNat := by
  have hval : c.val.toNat = c.toNat := rfl
  have hsize : c.toNat < 0x110000 := by
    rcases c.valid with hvalid | hvalid <;> omega
  unfold String.utf8EncodeChar at h
  simp only [hval] at h
  split_ifs at h
  · obtain rfl := List.mem_singleton.mp h
    rw [UInt8.toNat_ofNat']
    omega
  -- all bytes of a longer code have their high bit
  all_goals
    simp only [List.mem_cons, List.not_mem_nil, or_false] at h
    rcases h with rfl | rfl | rfl | rfl <;> rw [UInt8.toNat_ofNat'] at hb <;> omega

theorem exists_of_mem_encode {b : UInt8} (hb : b.toNat < 0x80) (h : b ∈ encode text) :
    ∃ c ∈ text, c.toNat = b.toNat := by
  obtain ⟨c, hc, hmem⟩ := List.mem_flatMap.mp h
  exact ⟨c, hc, mem_utf8EncodeChar hb hmem⟩

theorem encode_ascii (h : ∀ c ∈ text, c.toNat < 0x80) : encode text = text.map (fun c => UInt8.ofNat c.toNat) := by
  induction text with
  | nil => rfl
  | cons c text ih =>
      have hc : c.val.toNat ≤ 0x7f := Nat.le_of_lt_succ (h c List.mem_cons_self)
      have hrest := ih (fun d hd => h d (List.mem_cons_of_mem c hd))
      rw [encode, List.flatMap_cons, ← encode, hrest, String.utf8EncodeChar, if_pos hc]
      rfl

theorem toNat_lt_of_printable {c : Char} (h : Printable c) : c.toNat < 0x80 := by
  have hle : c.toNat ≤ '~'.toNat := h.2
  have htilde : '~'.toNat = 0x7e := rfl
  omega

/-- A text that ASCII prints is one line on the wire. -/
theorem encode_printable (h : ∀ c ∈ text, Printable c) :
    LineReader.newline ∉ encode text ∧ (encode text).length = text.length := by
  rw [encode_ascii (fun c hc => toNat_lt_of_printable (h c hc)), List.length_map]
  refine ⟨fun hmem => ?_, rfl⟩
  obtain ⟨c, hc, heq⟩ := List.mem_map.mp hmem
  have hnat := congrArg UInt8.toNat heq
  have hsmall := toNat_lt_of_printable (h c hc)
  have hlarge : ' '.toNat ≤ c.toNat := (h c hc).1
  have hblank : ' '.toNat = 0x20 := rfl
  have hnewline : LineReader.newline.toNat = 10 := rfl
  rw [UInt8.toNat_ofNat_of_lt' (hsmall.trans (by decide)), hnewline] at hnat
  omega

theorem takeWhile_line (hline : LineReader.newline ∉ line) (rest : List UInt8) :
    (line ++ LineReader.newline :: rest).takeWhile (· ≠ LineReader.newline) = line ∧
      (line ++ LineReader.newline :: rest).dropWhile (· ≠ LineReader.newline) = LineReader.newline :: rest := by
  have hall : ∀ b ∈ line, decide (b ≠ LineReader.newline) = true :=
    fun b hb => decide_eq_true fun heq => hline (heq ▸ hb)
  rw [List.takeWhile_append_of_pos hall, List.dropWhile_append_of_pos hall]
  constructor
  · rw [List.takeWhile_cons_of_neg (by simp), List.append_nil]
  · rw [List.dropWhile_cons_of_neg (by simp)]

theorem readline_line (hline : LineReader.newline ∉ line) (rest : List UInt8) :
    readline (line ++ LineReader.newline :: rest) =
      if line.length ≤ streamLimit then some (line ++ [LineReader.newline], rest) else none := by
  obtain ⟨htake, hdrop⟩ := takeWhile_line hline rest
  rw [readline, htake, hdrop]
  by_cases hlimit : line.length ≤ streamLimit
  · rw [if_neg (Nat.not_lt.mpr hlimit), if_pos hlimit]
  · rw [if_pos (Nat.lt_of_not_le hlimit), if_neg hlimit]

end stream

/-! The commands, and the answers in their envelope. -/

abbrev Members := List (String × Value)

/-- What a request makes the server do. -/
inductive Call where
  | probe (req : Members)
  | status
  | triage (req : Members)
  | findStrategy (req : Members)
  | generateConfig (req : Members)
  | dbgProbe (req : Members)
  | dbgInspectLua (req : Members)
  | dbgDumpPool
  | getTelemetry
  | setDebug (req : Members)
  | logTail (req : Members)
  | results (req : Members)
  | stop
  | unknown (cmd : Value)

/-- d[key] = value -/
def setKey (members : Members) (key : String) (value : Value) : Members :=
  if members.any (fun m => m.1 = key) then members.map (fun m => if m.1 = key then (key, value) else m)
  else members ++ [(key, value)]

/-- {**members, **more} -/
def merge (members more : Members) : Members := more.foldl (fun d m => setKey d m.1 m.2) members

/-- d.setdefault(key, value) -/
def setdefault (members : Members) (key : String) (value : Value) : Members :=
  if members.any (fun m => m.1 = key) then members else members ++ [(key, value)]

variable (conv : RunControl.Conversions)

/-- req.get("cmd") or req.get("action") -/
def command (req : Members) : Value := (conv.getTruthy req "cmd").getD ((get? req "action").getD .null)

def dispatch (req : Members) : Call :=
  match command conv req with
  | .str "probe" => .probe req
  | .str "status" => .status
  | .str "triage" => .triage req
  | .str "find_strategy" => .findStrategy req
  | .str "generate_config" => .generateConfig req
  | .str "dbg_probe" => .dbgProbe req
  | .str "dbg_inspect_lua" => .dbgInspectLua req
  | .str "dbg_dump_pool" => .dbgDumpPool
  | .str "get_telemetry" => .getTelemetry
  | .str "set_debug" => .setDebug req
  | .str "log_tail" => .logTail req
  | .str "results" => .results req
  | .str "stop" => .stop
  | cmd => .unknown cmd

def hasStatus (resp : Members) (status : String) : Bool :=
  match get? resp "status" with
  | some (.str s) => s = status
  | _ => false

def envelope (resp : Members) : Members :=
  let failed := if hasStatus resp "busy" then .null
    else .str ("cmd failed: " ++ conv.text ((get? resp "status").getD .null))
  let error := if hasStatus resp "ok" then .null else (conv.getTruthy resp "error").getD failed
  let data := resp.filter (fun m => m.1 ∉ ["status", "error", "ok", "data"])
  merge [("ok", .bool (hasStatus resp "ok")), ("data", .object data), ("error", error)] resp

/-- What the handlers give back; none when one raises. Those of the second group make the
envelope themselves. -/
def answer (handlers : Call → Option Members) (call : Call) : Option Members :=
  match call with
  | .unknown cmd =>
      some (envelope conv [("status", .str "error"), ("error", .str ("unknown cmd: " ++ conv.text cmd))])
  | .triage _ | .findStrategy _ | .generateConfig _ | .dbgInspectLua _ | .dbgDumpPool => handlers call
  | _ => (handlers call).map (envelope conv)

/-! The Unix socket: one request and one answer, each a line of JSON. -/

/-- What a connection made the server do, and what was written to it. -/
structure Served where
  call : Option Call := none
  written : List UInt8 := []

def jsonLine (members : Members) : List UInt8 := encode (ascii.dump (.object members) ++ ['\n'])

/-- An overlong line, and a request that is no object, raise. -/
def client (handlers : Call → Option Members) (stream : List UInt8) : Served :=
  match readline stream with
  | none => {}
  | some ([], _) => {}
  | some (line, _) => match (decodeStrict line).bind loads with
      | none => { written := jsonLine [("status", .str "error"), ("error", .str "bad json")] }
      | some (.object req) =>
          { call := some (dispatch conv req)
            written := ((answer conv handlers (dispatch conv req)).map jsonLine).getD [] }
      | some _ => {}

/-- {"action": action, **payload} -/
def requestData (action : String) (payload : Members) : Members := merge [("action", .str action)] payload

/-- The other side, in the MCP server. None stands for what it raises. -/
def sendDaemonRequest (serve : List UInt8 → Served) (action : String) (payload : Members) : Option Value :=
  match readline (serve (jsonLine (requestData action payload))).written with
  | none => none
  | some ([], _) => none
  | some (raw, _) => (decodeStrict raw).bind (fun text => loads (strip text))

section socket

variable {conv} {handlers : Call → Option Members}

/-- The line of a request or an answer within the limit of the reader. -/
def Fits (members : Members) : Prop := (ascii.dump (.object members)).length ≤ streamLimit

instance (members : Members) : Decidable (Fits members) := inferInstanceAs (Decidable (_ ≤ _))

theorem jsonLine_eq (members : Members) :
    jsonLine members = encode (ascii.dump (.object members)) ++ [LineReader.newline] := encode_append ..

theorem readline_jsonLine (members : Members) :
    readline (jsonLine members) = if Fits members then some (jsonLine members, []) else none := by
  obtain ⟨hline, hlength⟩ := encode_printable (ascii_writes.dump (.object members))
  rw [jsonLine_eq, readline_line hline, hlength]
  rfl

theorem jsonLine_cons (members : Members) : ∃ b bytes, jsonLine members = b :: bytes := by
  rw [jsonLine_eq]
  exact List.exists_cons_of_ne_nil (List.append_ne_nil_of_right_ne_nil _ (List.cons_ne_nil _ _))

theorem loads_jsonLine (members : Members) : (decodeStrict (jsonLine members)).bind loads = some (.object members) := by
  rw [jsonLine, decodeStrict_encode, Option.bind_some]
  exact ascii_sound.loads_dump_append _ (ends_cons (by decide)) rfl

theorem object_ends (members : Members) : ∃ body, ascii.dump (.object members) = '{' :: (body ++ ['}']) := by
  cases members with
  | nil => exact ⟨[], by rw [Style.dump]; rfl⟩
  | cons m members =>
      refine ⟨ascii.string m.1 ++ (':' :: (ascii.gap ++ (ascii.dump m.2 ++ ascii.dumpMembers members))), ?_⟩
      rw [Style.dump]
      simp only [List.cons_append, List.append_assoc]

theorem strip_jsonLine (members : Members) :
    strip (ascii.dump (.object members) ++ ['\n']) = ascii.dump (.object members) := by
  obtain ⟨body, hbody⟩ := object_ends members
  have hnewline : isSpace '\n' = true := by decide
  rw [TextLines.strip_concat_space hnewline, hbody, ← List.cons_append]
  refine TextLines.strip_eq_self (fun d hd => ?_) (fun d hd => ?_)
  · obtain rfl := Option.some.inj hd
    decide
  · rw [List.getLast?_concat] at hd
    obtain rfl := Option.some.inj hd
    decide

theorem client_jsonLine (handlers : Call → Option Members) (req : Members) :
    client conv handlers (jsonLine req) = if Fits req then
      { call := some (dispatch conv req), written := ((answer conv handlers (dispatch conv req)).map jsonLine).getD [] }
    else {} := by
  obtain ⟨b, bytes, hcons⟩ := jsonLine_cons req
  have hloads := loads_jsonLine req
  rw [client, readline_jsonLine]
  by_cases hfits : Fits req
  · rw [if_pos hfits, if_pos hfits, hcons]
    rw [hcons] at hloads
    dsimp only
    rw [hloads]
  · rw [if_neg hfits, if_neg hfits]

end socket

/-! The HTTP bridge over the same commands. -/

/-- HTTP_MAX_BODY_BYTES -/
def maxBody : Int := 0x100000

/-- The headers that count. -/
structure Head where
  authorization : Option (List Char) := none
  contentLength : Option Int := none

/-- A connection that is closed without an answer, or HttpRequestRejected. -/
inductive Failure where
  | closed
  | rejected (status : Nat) (message : String)

structure Request where
  method : List Char
  path : List Char
  authorization : Option (List Char)
  body : List UInt8

/-- The names of the headers are ASCII, and so are the letters that lower turns into theirs. -/
def names (header : String) (line : List UInt8) : Bool := startsWith ((Utf8Replace.decode line).map Char.toLower) header

/-- line.split(":", 1)[1].strip() -/
def headerValue (text : List Char) : List Char := strip ((text.dropWhile (· ≠ ':')).drop 1)

def Head.read (head : Head) (line : List UInt8) : Except Failure Head :=
  if names "authorization:" line then .ok { head with authorization := some (headerValue (Utf8Replace.decode line)) }
  else if names "content-length:" line then
    match conv.intOfText (String.ofList (headerValue ((Utf8Replace.decode line).map Char.toLower))) with
    | some n => .ok { head with contentLength := some n }
    | none => .error (.rejected 400 "invalid Content-Length")
  else .ok head

/-- An empty line, or the end of the stream. -/
def blanks : List (List UInt8) := [[0x0D, 0x0A], [0x0A], []]

/-- The loop over the header lines. A line takes a byte at least, which the fuel counts. -/
def readHead : Nat → Head → List UInt8 → Except Failure (Head × List UInt8)
  | 0, _, _ => .error .closed
  | fuel + 1, head, stream => match readline stream with
      | none => .error .closed
      | some (line, rest) =>
          if line ∈ blanks then .ok (head, rest)
          else (head.read conv line).bind (fun head => readHead fuel head rest)

/-- request_line.strip().split(" ", 2), which must give three parts. -/
def requestLine (line : List UInt8) : Option (List Char × List Char) :=
  let text := strip (Utf8Replace.decode line)
  match text.dropWhile (· ≠ ' ') with
  | [] => none
  | _ :: rest =>
      if rest.contains ' ' then some (text.takeWhile (· ≠ ' '), rest.takeWhile (· ≠ ' ')) else none

def readBody (method path : List Char) (head : Head) (stream : List UInt8) : Except Failure Request :=
  let length := head.contentLength.getD 0
  if length < 0 then .error (.rejected 400 "negative Content-Length")
  else if maxBody < length then .error (.rejected 413 "Content-Length exceeds limit")
  else if length ≤ stream.length then .ok ⟨method, path, head.authorization, stream.take length.toNat⟩
  else .error .closed

def readHttpRequest (stream : List UInt8) : Except Failure Request :=
  match readline stream with
  | none => .error .closed
  | some (line, rest) => match requestLine line with
      | none => .error .closed
      | some (method, path) =>
          (readHead conv (rest.length + 1) {} rest).bind (fun p => readBody method path p.1 p.2)

/-- The token of an Authorization header. -/
def authorizationToken (authorization : Option (List Char)) : Option (List Char) :=
  authorization.bind (fun text =>
    let token := strip ((text.dropWhile (· ≠ ' ')).drop 1)
    if (text.takeWhile (· ≠ ' ')).map Char.toLower = "bearer".toList ∧ token ≠ [] then some token else none)

/-- hmac.compare_digest on texts raises a TypeError unless both are ASCII. -/
def compareDigest (a b : List Char) : Option Bool :=
  if a.all (fun c => c.toNat < 0x80) && b.all (fun c => c.toNat < 0x80) then some (a = b) else none

def parseHttpBody (body : List UInt8) : Option Members :=
  if body = [] then some []
  else match (decodeStrict body).bind loads with
    | some (.object members) => some members
    | _ => none

inductive Route where
  | events
  | respond (call : Call) (lockable : Bool)
  | badBody
  | notFound

def actionPaths : List (String × String) :=
  [("/api/probe", "probe"), ("/api/triage", "triage"), ("/api/find-strategy", "find_strategy"),
    ("/api/generate-config", "generate_config"), ("/api/dbg-probe", "dbg_probe"), ("/api/set-debug", "set_debug")]

def action (body : List UInt8) (cmd : String) : Route :=
  match parseHttpBody body with
  | none => .badBody
  | some req => .respond (dispatch conv (setdefault req "cmd" (.str cmd))) true

/-- The paths outside /api. -/
def routePlain (method path : List Char) (body : List UInt8) : Route :=
  if method = "GET".toList ∧ startsWith path "/status" then .respond .status true
  else if method = "POST".toList ∧ startsWith path "/stop" then .respond .stop false
  else if method = "POST".toList ∧ (startsWith path "/probe" ∨ path = "/".toList) then action conv body "probe"
  else .notFound

/-- The query of a path is what parse_qs gives. -/
def routeHttpRequest (query : List Char → Members) (method path : List Char) (body : List UInt8) : Route :=
  let fetches := method = "GET".toList ∨ method = "HEAD".toList
  if path = "/api/events".toList ∧ fetches then .events
  else if path = "/api/status".toList ∧ fetches then .respond .status true
  else if path = "/api/telemetry".toList ∧ fetches then .respond .getTelemetry false
  else if (path = "/api/logs".toList ∨ startsWith path "/api/logs?") ∧ fetches then .respond (.logTail (query path)) false
  else if path = "/api/results".toList ∨ startsWith path "/api/results?" then .respond (.results (query path)) false
  else if path = "/api/stop".toList ∧ method = "POST".toList then .respond .stop false
  else match actionPaths.find? (fun a => a.1.toList = path ∧ method = "POST".toList) with
    | some a => action conv body a.2
    | none => routePlain conv method path body

inductive Reply where
  | closed
  | events
  | json (status : Nat) (members : Members)

/-- What a request over HTTP made the server do, and its answer. -/
structure Handled where
  call : Option Call := none
  reply : Reply

def refusal (message : String) : Members := [("status", .str "error"), ("ok", .bool false), ("error", .str message)]

def routed (handlers : Call → Option Members) : Route → Handled
  | .events => { reply := .events }
  | .respond call lockable =>
      { call := some call
        reply := match answer conv handlers call with
          | none => .closed
          | some resp => .json (if lockable && hasStatus resp "busy" then 423 else 200) resp }
  | .badBody => { reply := .json 400 [("status", .str "error"), ("error", .str "bad json body")] }
  | .notFound => { reply := .json 404 [("status", .str "error"), ("error", .str "not found")] }

def authorized (query : List Char → Members) (handlers : Call → Option Members) (token : List Char)
    (req : Request) : Handled :=
  match authorizationToken req.authorization with
  | none => { reply := .json 401 (refusal "unauthorized") }
  | some provided => match compareDigest provided token with
      | none => { reply := .closed }
      | some false => { reply := .json 401 (refusal "unauthorized") }
      | some true => routed conv handlers (routeHttpRequest conv query req.method req.path req.body)

def handle (query : List Char → Members) (handlers : Call → Option Members) (token : List Char)
    (stream : List UInt8) : Handled :=
  match readHttpRequest conv stream with
  | .error .closed => { reply := .closed }
  | .error (.rejected status message) => { reply := .json status (refusal message) }
  | .ok req =>
      if (req.method = "GET".toList ∨ req.method = "HEAD".toList) ∧ req.path = "/api/health".toList then
        { reply := .json 200 [("status", .str "ok"), ("ok", .bool true)] }
      else authorized conv query handlers token req

section bridge

variable {conv} {query : List Char → Members} {handlers : Call → Option Members} {token : List Char}
  {stream line rest : List UInt8} {head head' : Head} {fuel : Nat} {lines : List (List UInt8)}

/-- A line with its end, or without one at the end of the stream. -/
def WholeLine (line : List UInt8) : Prop :=
  LineReader.newline ∉ line.dropLast

theorem readline_spec (h : readline stream = some (line, rest)) : stream = line ++ rest ∧ WholeLine line := by
  rw [readline] at h
  split at h
  next => cases h
  next =>
    have hsplit := List.takeWhile_append_dropWhile (p := fun b => decide (b ≠ LineReader.newline)) (l := stream)
    have hfree : LineReader.newline ∉ stream.takeWhile (· ≠ LineReader.newline) := by
      intro hmem
      have hother := List.mem_takeWhile_imp hmem
      simp at hother
    split at h
    next hdrop =>
      obtain ⟨rfl, rfl⟩ := Prod.mk.inj (Option.some.inj h)
      rw [hdrop, List.append_nil] at hsplit
      rw [hsplit] at hfree
      exact ⟨(List.append_nil _).symm, fun hmem => hfree (List.mem_of_mem_dropLast hmem)⟩
    next stop rest' hdrop =>
      obtain ⟨rfl, rfl⟩ := Prod.mk.inj (Option.some.inj h)
      rw [hdrop] at hsplit
      refine ⟨by rw [List.append_assoc, List.singleton_append, hsplit], ?_⟩
      rw [WholeLine, List.dropLast_concat]
      exact hfree

/-- The lines of the head, up to the empty one. -/
structure HeadLines (conv : RunControl.Conversions) (head : Head) (stream : List UInt8) (head' : Head)
    (rest : List UInt8) (lines : List (List UInt8)) (blank : List UInt8) : Prop where
  text : stream = lines.flatten ++ (blank ++ rest)
  ends : blank ∈ blanks
  whole : ∀ line ∈ lines, WholeLine line ∧ line ∉ blanks
  read : lines.foldlM (fun head line => head.read conv line) head = .ok head'

theorem readHead_spec (h : readHead conv fuel head stream = .ok (head', rest)) :
    ∃ lines blank, HeadLines conv head stream head' rest lines blank := by
  induction fuel generalizing head stream with
  | zero => cases h
  | succ fuel ih =>
      rw [readHead] at h
      cases hline : readline stream with
      | none =>
          rw [hline] at h
          cases h
      | some p =>
          obtain ⟨line, more⟩ := p
          obtain ⟨hstream, hwhole⟩ := readline_spec hline
          rw [hline] at h
          dsimp only at h
          split at h
          next hblank =>
            obtain ⟨rfl, rfl⟩ := Prod.mk.inj (Except.ok.inj h)
            exact ⟨[], line, ⟨hstream, hblank, fun _ hmem => absurd hmem List.not_mem_nil, rfl⟩⟩
          next hblank =>
            cases hread : head.read conv line with
            | error failure =>
                rw [hread] at h
                cases h
            | ok between =>
                rw [hread] at h
                obtain ⟨lines, blank, hrest⟩ := ih h
                refine ⟨line :: lines, blank, ⟨?_, hrest.ends, ?_, ?_⟩⟩
                · rw [hstream, hrest.text, List.flatten_cons, List.append_assoc]
                · exact List.forall_mem_cons.mpr ⟨⟨hwhole, hblank⟩, hrest.whole⟩
                · rw [List.foldlM_cons, hread]
                  exact hrest.read

theorem read_authorization (h : head.read conv line = .ok head') :
    head'.authorization = if names "authorization:" line then some (headerValue (Utf8Replace.decode line))
      else head.authorization := by
  rw [Head.read] at h
  split at h
  next hname =>
    obtain rfl := Except.ok.inj h
    rw [if_pos hname]
  next hname =>
    rw [if_neg hname]
    split at h
    · split at h
      · obtain rfl := Except.ok.inj h
        rfl
      · cases h
    · obtain rfl := Except.ok.inj h
      rfl

/-- The last Authorization header counts. -/
theorem foldlM_authorization (h : lines.foldlM (fun head line => head.read conv line) head = .ok head') :
    (head'.authorization = head.authorization ∧ ∀ line ∈ lines, names "authorization:" line = false) ∨
      ∃ before line after, lines = before ++ line :: after ∧ names "authorization:" line ∧
        (∀ later ∈ after, names "authorization:" later = false) ∧
        head'.authorization = some (headerValue (Utf8Replace.decode line)) := by
  induction lines generalizing head with
  | nil =>
      obtain rfl := Except.ok.inj h
      exact .inl ⟨rfl, fun _ hmem => absurd hmem List.not_mem_nil⟩
  | cons line lines ih =>
      rw [List.foldlM_cons] at h
      cases hread : head.read conv line with
      | error failure =>
          rw [hread] at h
          cases h
      | ok between =>
          rw [hread] at h
          have hfirst := read_authorization hread
          rcases ih h with ⟨hsame, hnone⟩ | ⟨before, last, after, rfl, hlast, hafter, hvalue⟩
          · by_cases hname : names "authorization:" line
            · rw [if_pos hname] at hfirst
              exact .inr ⟨[], line, lines, rfl, hname, hnone, hsame.trans hfirst⟩
            · rw [if_neg hname] at hfirst
              exact .inl ⟨hsame.trans hfirst, List.forall_mem_cons.mpr ⟨Bool.eq_false_iff.mpr hname, hnone⟩⟩
          · exact .inr ⟨line :: before, last, after, rfl, hlast, hafter, hvalue⟩

theorem readBody_spec {method path : List Char} {req : Request} (h : readBody method path head stream = .ok req) :
    req.method = method ∧ req.path = path ∧ req.authorization = head.authorization ∧ req.body <+: stream ∧
      req.body.length ≤ maxBody := by
  rw [readBody] at h
  split at h
  next => cases h
  next =>
    split at h
    next => cases h
    next hbound =>
      split at h
      next =>
        obtain rfl := Except.ok.inj h
        refine ⟨rfl, rfl, rfl, List.take_prefix _ _, ?_⟩
        dsimp only
        rw [List.length_take]
        omega
      next => cases h

theorem readHttpRequest_spec {req : Request} (h : readHttpRequest conv stream = .ok req) :
    ∃ first lines blank head rest, stream = first ++ (lines.flatten ++ (blank ++ rest)) ∧ WholeLine first ∧
      requestLine first = some (req.method, req.path) ∧
      HeadLines conv {} (lines.flatten ++ (blank ++ rest)) head rest lines blank ∧
      req.authorization = head.authorization ∧ req.body <+: rest ∧ req.body.length ≤ maxBody := by
  rw [readHttpRequest] at h
  cases hline : readline stream with
  | none =>
      rw [hline] at h
      cases h
  | some p =>
      obtain ⟨first, more⟩ := p
      obtain ⟨hstream, hwhole⟩ := readline_spec hline
      rw [hline] at h
      dsimp only at h
      cases hrequest : requestLine first with
      | none =>
          rw [hrequest] at h
          cases h
      | some q =>
          obtain ⟨method, path⟩ := q
          rw [hrequest] at h
          dsimp only at h
          cases hhead : readHead conv (more.length + 1) {} more with
          | error failure =>
              rw [hhead] at h
              cases h
          | ok r =>
              obtain ⟨head, rest⟩ := r
              rw [hhead] at h
              obtain ⟨lines, blank, hlines⟩ := readHead_spec hhead
              obtain ⟨hmethod, hpath, hauthorization, hbody, hbound⟩ := readBody_spec h
              have htext := hlines.text
              subst htext
              exact ⟨first, lines, blank, head, rest, hstream, hwhole, by rw [hmethod, hpath, hrequest], hlines,
                hauthorization, hbody, hbound⟩

theorem compareDigest_eq {provided : List Char} (h : compareDigest provided token = some true) : provided = token := by
  rw [compareDigest] at h
  split at h
  next => exact of_decide_eq_true (Option.some.inj h)
  next => cases h

/-- A command is done, or the events are opened. -/
def Acts (handled : Handled) : Prop := handled.call.isSome ∨ handled.reply = .events

theorem not_acts_closed : ¬ Acts { reply := .closed } := by
  rintro (h | h) <;> cases h

theorem not_acts_json (status : Nat) (members : Members) : ¬ Acts { reply := .json status members } := by
  rintro (h | h) <;> cases h

theorem authorized_spec {req : Request} (h : Acts (authorized conv query handlers token req)) :
    authorizationToken req.authorization = some token ∧ authorized conv query handlers token req =
      routed conv handlers (routeHttpRequest conv query req.method req.path req.body) := by
  cases htoken : authorizationToken req.authorization with
  | none =>
      rw [authorized, htoken] at h
      exact absurd h (not_acts_json _ _)
  | some provided =>
      cases hdigest : compareDigest provided token with
      | none =>
          simp only [authorized, htoken, hdigest] at h
          exact absurd h not_acts_closed
      | some same =>
          cases same with
          | false =>
              simp only [authorized, htoken, hdigest] at h
              exact absurd h (not_acts_json _ _)
          | true =>
              obtain rfl := compareDigest_eq hdigest
              simp only [authorized, htoken, hdigest, and_self]

theorem handle_spec (h : Acts (handle conv query handlers token stream)) :
    ∃ req, readHttpRequest conv stream = .ok req ∧ authorizationToken req.authorization = some token ∧
      handle conv query handlers token stream =
        routed conv handlers (routeHttpRequest conv query req.method req.path req.body) := by
  cases hread : readHttpRequest conv stream with
  | error failure =>
      cases failure with
      | closed =>
          rw [handle, hread] at h
          exact absurd h not_acts_closed
      | rejected status message =>
          rw [handle, hread] at h
          exact absurd h (not_acts_json _ _)
  | ok req =>
      rw [handle, hread] at h ⊢
      dsimp only at h ⊢
      split at h
      next => exact absurd h (not_acts_json _ _)
      next hhealth =>
        obtain ⟨htoken, heq⟩ := authorized_spec h
        exact ⟨req, rfl, htoken, by rw [if_neg hhealth, heq]⟩

/-- Whatever comes over a connection: a command is done, or the events opened, only when the
last Authorization header in front of the first empty line gives the token, and then from the
path of the first line and at most a MiB of what is behind the empty line. -/
theorem http_gate (h : Acts (handle conv query handlers token stream)) :
    ∃ first before line after blank rest method path body,
      stream = first ++ ((before ++ line :: after).flatten ++ (blank ++ rest)) ∧ WholeLine first ∧
      (∀ l ∈ before ++ line :: after, WholeLine l ∧ l ∉ blanks) ∧ blank ∈ blanks ∧
      names "authorization:" line ∧ (∀ later ∈ after, names "authorization:" later = false) ∧
      authorizationToken (some (headerValue (Utf8Replace.decode line))) = some token ∧
      requestLine first = some (method, path) ∧ body <+: rest ∧ body.length ≤ maxBody ∧
      handle conv query handlers token stream = routed conv handlers (routeHttpRequest conv query method path body) := by
  obtain ⟨req, hread, htoken, hhandle⟩ := handle_spec h
  obtain ⟨first, lines, blank, head, rest, hstream, hfirst, hrequest, hlines, hauthorization, hbody, hbound⟩ :=
    readHttpRequest_spec hread
  rcases foldlM_authorization hlines.read with ⟨hsame, _⟩ | ⟨before, line, after, rfl, hname, hafter, hvalue⟩
  · rw [hauthorization, hsame] at htoken
    cases htoken
  · rw [hauthorization, hvalue] at htoken
    exact ⟨first, before, line, after, blank, rest, req.method, req.path, req.body, hstream, hfirst, hlines.whole,
      hlines.ends, hname, hafter, htoken, hrequest, hbody, hbound, hhandle⟩

/-! What a client sends. -/

def headerLine (text : List Char) : List UInt8 := encode (text ++ ['\r', '\n'])

def httpRequest (method path : List Char) (headers : List (List Char)) (body : List UInt8) : List UInt8 :=
  headerLine (method ++ ' ' :: (path ++ ' ' :: "HTTP/1.1".toList)) ++ (headers.flatMap headerLine ++ (headerLine [] ++ body))

/-- Numbers in decimal digits. -/
def digitConversions : RunControl.Conversions :=
  ⟨fun _ => some 0, fun _ => false,
    fun text => if text.toList ≠ [] ∧ text.toList.all Char.isDigit then
      some (text.toList.foldl (fun n c => 10 * n + (c.toNat - '0'.toNat : Nat)) 0) else none,
    fun _ => ""⟩

def eventsRequest : List UInt8 :=
  httpRequest "GET".toList "/api/events".toList ["Authorization: Bearer secret".toList] []

theorem eventsRequest_gated : ∃ line, names "authorization:" line ∧
    authorizationToken (some (headerValue (Utf8Replace.decode line))) = some "secret".toList := by
  have hacts : Acts (handle digitConversions (fun _ => []) (fun _ => none) "secret".toList eventsRequest) := .inr rfl
  obtain ⟨_, _, line, _, _, _, _, _, _, _, _, _, _, hname, _, htoken, _⟩ := http_gate hacts
  exact ⟨line, hname, htoken⟩

theorem decode_ascii {text : List Char} (h : ∀ c ∈ text, c.toNat < 0x80) : Utf8Replace.decode (encode text) = text := by
  rw [encode_ascii h]
  induction text with
  | nil => rfl
  | cons c text ih =>
      have hc := h c List.mem_cons_self
      have hnat : (UInt8.ofNat c.toNat).toNat = c.toNat := UInt8.toNat_ofNat_of_lt' (hc.trans (by decide))
      have hstart : Utf8Replace.start (UInt8.ofNat c.toNat) = ([], [c]) := by
        rw [Utf8Replace.start, Utf8Replace.parse, hnat, if_pos hc]
        exact congrArg (fun d => (([] : List UInt8), [d])) (Char.ofNat_toNat c)
      rw [List.map_cons, Utf8Replace.decode, Utf8Replace.decodeFrom_cons, Utf8Replace.step, if_pos rfl, hstart,
        ← Utf8Replace.decode, ih (fun d hd => h d (List.mem_cons_of_mem c hd))]
      rfl

theorem headerLine_eq (text : List Char) : headerLine text = (encode text ++ [0x0D]) ++ [LineReader.newline] := by
  rw [headerLine, encode_append, List.append_assoc]
  rfl

/-- A line that a reader takes whole. -/
structure SendsLine (text : List Char) : Prop where
  printable : ∀ c ∈ text, Printable c
  length : text.length < streamLimit

theorem readline_headerLine {text : List Char} (h : SendsLine text) (rest : List UInt8) :
    readline (headerLine text ++ rest) = some (headerLine text, rest) := by
  obtain ⟨hline, hlength⟩ := encode_printable h.printable
  have hcr : LineReader.newline ∉ encode text ++ [0x0D] := by
    refine List.not_mem_append hline ?_
    decide
  have hlimit : (encode text ++ [0x0D]).length ≤ streamLimit := by
    rw [List.length_append, hlength]
    exact h.length
  have happend : headerLine text ++ rest = (encode text ++ [0x0D]) ++ LineReader.newline :: rest := by
    rw [headerLine_eq, List.append_assoc, List.singleton_append]
  rw [happend, readline_line hcr, if_pos hlimit, headerLine_eq]

theorem headerLine_notMem {text : List Char} (h : SendsLine text) (hne : text ≠ []) : headerLine text ∉ blanks := by
  have hlength := (encode_printable h.printable).2
  have hpos := List.length_pos_iff.mpr hne
  have htotal : (headerLine text).length = text.length + 2 := by
    rw [headerLine_eq, List.length_append, List.length_append, hlength]
    rfl
  intro hmem
  rw [blanks, List.mem_cons, List.mem_cons, List.mem_singleton] at hmem
  rcases hmem with heq | heq | heq <;>
    (rw [heq] at htotal; simp only [List.length_cons, List.length_nil] at htotal; omega)

/-- The loop reads the headers of a client and stops behind its empty line. -/
theorem readHead_sends {headers : List (List Char)} (hheaders : ∀ text ∈ headers, SendsLine text ∧ text ≠ [])
    (hfuel : headers.length < fuel) (hread : (headers.map headerLine).foldlM (fun head line => head.read conv line) head =
      .ok head') (rest : List UInt8) :
    readHead conv fuel head (headers.flatMap headerLine ++ (headerLine [] ++ rest)) = .ok (head', rest) := by
  induction headers generalizing head fuel with
  | nil =>
      obtain ⟨fuel, rfl⟩ := Nat.exists_eq_add_one.mpr hfuel
      obtain rfl := Except.ok.inj hread
      have hempty : SendsLine [] := ⟨fun _ hc => absurd hc List.not_mem_nil, by decide⟩
      have hblank : headerLine [] ∈ blanks := by decide
      rw [List.flatMap_nil, List.nil_append, readHead, readline_headerLine hempty]
      exact if_pos hblank
  | cons text headers ih =>
      obtain ⟨fuel, rfl⟩ := Nat.exists_eq_add_one.mpr (Nat.zero_lt_of_lt hfuel)
      obtain ⟨⟨hsends, hne⟩, hrest⟩ := List.forall_mem_cons.mp hheaders
      rw [List.map_cons, List.foldlM_cons] at hread
      cases hfirst : head.read conv (headerLine text) with
      | error failure =>
          rw [hfirst] at hread
          cases hread
      | ok between =>
          rw [hfirst] at hread
          rw [List.flatMap_cons, List.append_assoc, readHead, readline_headerLine hsends]
          dsimp only
          rw [if_neg (headerLine_notMem hsends hne), hfirst]
          exact ih hrest (Nat.lt_of_succ_lt_succ hfuel) hread

theorem not_isSpace {c : Char} (h : Printable c) (hblank : c ≠ ' ') : isSpace c = false := by
  have hlow : ' '.toNat ≤ c.toNat := h.1
  have hne : c.toNat ≠ ' '.toNat := fun heq => hblank (Char.toNat_inj.mp heq)
  have hhigh := toNat_lt_of_printable h
  have hnat : ' '.toNat = 0x20 := rfl
  simp only [isSpace, List.mem_cons, List.not_mem_nil, or_false, Bool.or_eq_false_iff, decide_eq_false_iff_not]
  omega

theorem takeWhile_word {word : List Char} (h : ∀ c ∈ word, c ≠ ' ') (rest : List Char) :
    (word ++ ' ' :: rest).takeWhile (· ≠ ' ') = word ∧ (word ++ ' ' :: rest).dropWhile (· ≠ ' ') = ' ' :: rest := by
  have hall : ∀ c ∈ word, decide (c ≠ ' ') = true := fun c hc => decide_eq_true (h c hc)
  rw [List.takeWhile_append_of_pos hall, List.dropWhile_append_of_pos hall]
  constructor
  · rw [List.takeWhile_cons_of_neg (by simp), List.append_nil]
  · rw [List.dropWhile_cons_of_neg (by simp)]

/-- The first line of a request gives its method and its path. -/
theorem requestLine_sends {method path : List Char} (hmethod : ∀ c ∈ method, Printable c ∧ c ≠ ' ')
    (hpath : ∀ c ∈ path, Printable c ∧ c ≠ ' ') (hne : method ≠ []) :
    requestLine (headerLine (method ++ ' ' :: (path ++ ' ' :: "HTTP/1.1".toList))) = some (method, path) := by
  have hversion : ∀ c ∈ "HTTP/1.1".toList, Printable c := printable_of_all (by decide)
  have hprintable : ∀ c ∈ method ++ ' ' :: (path ++ ' ' :: "HTTP/1.1".toList), Printable c := by
    simp only [List.forall_mem_append, List.forall_mem_cons]
    exact ⟨fun c hc => (hmethod c hc).1, by decide, fun c hc => (hpath c hc).1, by decide, hversion⟩
  have hends : ∀ c ∈ ['\r', '\n'], c.toNat < 0x80 := by
    simp only [List.forall_mem_cons, List.not_mem_nil, false_implies, implies_true, and_true]
    decide
  have hdecode := decode_ascii (List.forall_mem_append.mpr ⟨fun c hc => toNat_lt_of_printable (hprintable c hc), hends⟩)
  have hcr : isSpace '\r' = true := by decide
  have hlf : isSpace '\n' = true := by decide
  have hstrip : strip (method ++ ' ' :: (path ++ ' ' :: "HTTP/1.1".toList) ++ ['\r', '\n']) =
      method ++ ' ' :: (path ++ ' ' :: "HTTP/1.1".toList) := by
    rw [List.append_cons _ '\r', TextLines.strip_concat_space hlf, TextLines.strip_concat_space hcr]
    refine TextLines.strip_eq_self (fun d hd => ?_) (fun d hd => ?_)
    · obtain ⟨c, rest, rfl⟩ := List.exists_cons_of_ne_nil hne
      obtain rfl := Option.some.inj hd
      obtain ⟨hc, hblank⟩ := hmethod c List.mem_cons_self
      exact not_isSpace hc hblank
    · have hlast : (method ++ ' ' :: (path ++ ' ' :: "HTTP/1.1".toList)).getLast? = some '1' := by
        have hshape : method ++ ' ' :: (path ++ ' ' :: "HTTP/1.1".toList) =
            (method ++ ' ' :: (path ++ ' ' :: "HTTP/1.".toList)) ++ ['1'] := by
          simp only [List.append_assoc, List.cons_append]
          rfl
        rw [hshape, List.getLast?_concat]
      obtain rfl := Option.some.inj (hlast.symm.trans hd)
      decide
  rw [requestLine, headerLine, hdecode, hstrip]
  obtain ⟨htake, hdrop⟩ := takeWhile_word (fun c hc => (hmethod c hc).2) (path ++ ' ' :: "HTTP/1.1".toList)
  obtain ⟨htake', _⟩ := takeWhile_word (fun c hc => (hpath c hc).2) "HTTP/1.1".toList
  have hblank : (path ++ ' ' :: "HTTP/1.1".toList).contains ' ' = true :=
    List.contains_iff_mem.mpr (List.mem_append_right _ List.mem_cons_self)
  rw [hdrop, htake]
  dsimp only
  rw [if_pos hblank, htake']

/-- The headers of a request, as its client sends them and the server reads them. -/
structure Headers (conv : RunControl.Conversions) (headers : List (List Char)) (head : Head) : Prop where
  sends : ∀ text ∈ headers, SendsLine text ∧ text ≠ []
  read : (headers.map headerLine).foldlM (fun (head : Head) line => head.read conv line) {} = .ok head

theorem length_le_flatMap (headers : List (List Char)) : headers.length ≤ (headers.flatMap headerLine).length := by
  induction headers with
  | nil => exact Nat.le_refl 0
  | cons text headers ih =>
      have hpos : 0 < (headerLine text).length := by
        rw [headerLine_eq, List.length_append]
        exact Nat.succ_pos _
      rw [List.flatMap_cons, List.length_append, List.length_cons]
      omega

/-- The server reads the request that was sent, whatever follows it. -/
theorem readHttpRequest_sends {method path : List Char} {headers : List (List Char)} {body : List UInt8}
    (hmethod : ∀ c ∈ method, Printable c ∧ c ≠ ' ') (hpath : ∀ c ∈ path, Printable c ∧ c ≠ ' ') (hne : method ≠ [])
    (hshort : method.length + path.length + 10 < streamLimit) (hheaders : Headers conv headers head)
    (hlength : head.contentLength = some (body.length : Int)) (hbound : (body.length : Int) ≤ maxBody)
    (more : List UInt8) : readHttpRequest conv (httpRequest method path headers body ++ more) =
      .ok ⟨method, path, head.authorization, body⟩ := by
  have hversion : ∀ c ∈ "HTTP/1.1".toList, Printable c := printable_of_all (by decide)
  have hfirst : SendsLine (method ++ ' ' :: (path ++ ' ' :: "HTTP/1.1".toList)) := by
    refine ⟨?_, ?_⟩
    · simp only [List.forall_mem_append, List.forall_mem_cons]
      exact ⟨fun c hc => (hmethod c hc).1, by decide, fun c hc => (hpath c hc).1, by decide, hversion⟩
    · have hlast : "HTTP/1.1".toList.length = 8 := rfl
      simp only [List.length_append, List.length_cons, hlast]
      omega
  have hfuel : headers.length < (headers.flatMap headerLine ++ (headerLine [] ++ (body ++ more))).length + 1 := by
    have hle := length_le_flatMap headers
    rw [List.length_append]
    omega
  have hstream : httpRequest method path headers body ++ more =
      headerLine (method ++ ' ' :: (path ++ ' ' :: "HTTP/1.1".toList)) ++
        (headers.flatMap headerLine ++ (headerLine [] ++ (body ++ more))) := by
    simp only [httpRequest, List.append_assoc]
  rw [hstream, readHttpRequest, readline_headerLine hfirst]
  dsimp only
  rw [requestLine_sends hmethod hpath hne]
  dsimp only
  rw [readHead_sends hheaders.sends hfuel hheaders.read]
  change readBody method path head (body ++ more) = _
  rw [readBody, hlength]
  have hsmall : ¬ ((body.length : Int) < 0) := Int.not_lt.mpr (Int.natCast_nonneg _)
  have hroom : (body.length : Int) ≤ (body ++ more).length := by
    rw [List.length_append]
    omega
  simp only [Option.getD_some, if_neg hsmall, if_neg (Int.not_lt.mpr hbound), if_pos hroom, Int.toNat_natCast,
    List.take_left]

theorem actionPaths_plain : ∀ a ∈ actionPaths, a.1.toList ≠ "/api/events".toList ∧ a.1.toList ≠ "/api/status".toList ∧
    a.1.toList ≠ "/api/telemetry".toList ∧ a.1.toList ≠ "/api/logs".toList ∧ a.1.toList ≠ "/api/stop".toList ∧
    ¬ (a.1.toList = "/api/results".toList ∨ startsWith a.1.toList "/api/results?") ∧
    a.1.toList ≠ "/api/health".toList ∧ a.1.toList.length < 25 ∧
    a.1.toList.all (fun c => decide (Printable c ∧ c ≠ ' ')) := by
  decide

theorem find_actionPath : ∀ a ∈ actionPaths,
    actionPaths.find? (fun b => b.1.toList = a.1.toList ∧ "POST".toList = "POST".toList) = some a := by
  decide

theorem routeHttpRequest_action {a : String × String} (ha : a ∈ actionPaths) (body : List UInt8) :
    routeHttpRequest conv query "POST".toList a.1.toList body = action conv body a.2 := by
  obtain ⟨hevents, hstatus, htelemetry, hlogs, hstop, hresults, _⟩ := actionPaths_plain a ha
  have hfetches : ¬("POST".toList = "GET".toList ∨ "POST".toList = "HEAD".toList) := by decide
  have hfind := find_actionPath a ha
  rw [routeHttpRequest, if_neg (fun h => hevents h.1), if_neg (fun h => hstatus h.1), if_neg (fun h => htelemetry h.1),
    if_neg (fun h => hfetches h.2), if_neg hresults, if_neg (fun h => hstop h.1), hfind]

/-- A request as the body of a POST. -/
def postBody (req : Members) : List UInt8 := encode (ascii.dump (.object req))

theorem parseHttpBody_postBody (req : Members) : parseHttpBody (postBody req) = some req := by
  obtain ⟨body, hbody⟩ := object_ends req
  have hlength := (encode_printable (ascii_writes.dump (.object req))).2
  have hne : postBody req ≠ [] := by
    intro hnil
    rw [postBody] at hnil
    rw [hnil, hbody] at hlength
    cases hlength
  rw [parseHttpBody, if_neg hne, postBody, decodeStrict_encode, Option.bind_some, ascii_sound.loads_dump]

theorem compareDigest_self (h : ∀ c ∈ token, c.toNat < 0x80) : compareDigest token token = some true := by
  have hall : token.all (fun c => decide (c.toNat < 0x80)) = true :=
    List.all_eq_true.mpr fun c hc => decide_eq_true (h c hc)
  rw [compareDigest, hall, if_pos (by rfl), decide_eq_true rfl]

/-- The reply over HTTP is what the socket writes, with the status of a lock that is taken. -/
def Reply.Agrees : Reply → List UInt8 → Prop
  | .closed, written => written = []
  | .events, _ => False
  | .json status members, written => written = jsonLine members ∧ status = if hasStatus members "busy" then 423 else 200

theorem routed_agrees (call : Call) :
    (routed conv handlers (.respond call true)).reply.Agrees (((answer conv handlers call).map jsonLine).getD []) := by
  rw [routed]
  cases answer conv handlers call with
  | none => rfl
  | some resp =>
      refine ⟨rfl, ?_⟩
      rw [Bool.true_and]

def secretHeaders : List (List Char) := ["Authorization: Bearer secret".toList, "Content-Length: 2".toList]

theorem secretHeaders_read : Headers digitConversions secretHeaders ⟨some "Bearer secret".toList, some 2⟩ := by
  refine ⟨?_, rfl⟩
  have hall : secretHeaders.all (fun text => text.all (fun c => decide (Printable c)) && decide (text.length < streamLimit) &&
      decide (text ≠ [])) = true := by decide
  intro text hmem
  have htext := List.all_eq_true.mp hall text hmem
  simp only [Bool.and_eq_true, decide_eq_true_eq] at htext
  exact ⟨⟨printable_of_all htext.1.1, htext.1.2⟩, htext.2⟩

end bridge

end Blockchecks.ProbeServer
