import Blockchecks.JsonRoundTrip
import Blockchecks.StrategyText

namespace Blockchecks.RunControl

open Json StrategyText

/-- KeyError, TypeError and ValueError are caught where the lock is read,
OverflowError is not. -/
inductive Error where
  | invalid
  | overflow
  deriving DecidableEq

/-- Python's conversions of values that only a foreign lock holds. -/
structure Conversions where
  intOfFloat : FloatLiteral → Option Int
  floatIsZero : FloatLiteral → Bool
  intOfText : String → Option Int
  repr : Value → String

structure ActiveRunInfo where
  pid : Int
  command : String
  startedAt : String
  dbPath : Option Value := none
  cwd : Option Value := none
  argv : List Value := []

namespace Conversions

variable (conv : Conversions)

/-- int(value); a float beyond the finite ones overflows. -/
def int : Value → Except Error Int
  | .bool b => .ok (if b then 1 else 0)
  | .number (.int n) => .ok n
  | .number (.float x) => match conv.intOfFloat x with
      | some n => .ok n
      | none => .error .overflow
  | .number (.infinity _) => .error .overflow
  | .str s => match conv.intOfText s with
      | some n => .ok n
      | none => .error .invalid
  | .number .nan | .null | .array _ | .object _ => .error .invalid

def truthy : Value → Bool
  | .null => false
  | .bool b => b
  | .number (.int n) => n ≠ 0
  | .number (.float x) => !conv.floatIsZero x
  | .number .nan | .number (.infinity _) => true
  | .str s => s ≠ ""
  | .array items => !items.isEmpty
  | .object members => !members.isEmpty

def text : Value → String
  | .str s => s
  | value => conv.repr value

/-- data.get(key) or None -/
def getTruthy (members : List (String × Value)) (key : String) : Option Value :=
  (get? members key).filter conv.truthy

def list : Value → Except Error (List Value)
  | .array items => .ok items
  | .str s => .ok (s.toList.map (fun c => .str (String.ofList [c])))
  | .object members => .ok ((members.map Prod.fst).eraseDups.map .str)
  | .null | .bool _ | .number _ => .error .invalid

def fromDict : Value → Except Error ActiveRunInfo
  | .object members => do
      let pid ← match get? members "pid" with
        | some value => conv.int value
        | none => .error .invalid
      let argv ← match conv.getTruthy members "argv" with
        | some value => list value
        | none => .ok []
      return {
        pid := pid
        command := match conv.getTruthy members "command" with
          | some value => conv.text value
          | none => "unknown"
        startedAt := match conv.getTruthy members "started_at" with
          | some value => conv.text value
          | none => ""
        dbPath := conv.getTruthy members "db_path"
        cwd := conv.getTruthy members "cwd"
        argv := argv }
  | _ => .error .invalid

end Conversions

/-- The processes of the system by pid, each with its /proc cmdline. -/
abbrev Processes := Int → Option (Option String)

/-- os.kill takes a C int. -/
def pidLimit : Int := 2 ^ 31

def isPidAlive (processes : Processes) (pid : Int) : Except Error Bool :=
  if pid ≤ 0 then .ok false
  else if pidLimit ≤ pid then .error .overflow
  else .ok (processes pid).isSome

/-- An unreadable or empty cmdline counts as a campaign. -/
def cmdlineLooksLikeCampaign (processes : Processes) (pid : Int) : Bool :=
  match processes pid with
  | none => true
  | some none => true
  | some (some cmdline) =>
      cmdline = "" || contains cmdline.toList "blockchecks" || contains cmdline.toList "bin/bs"

def readText (content : ByteArray) : Except Error String :=
  match String.fromUTF8? content with
  | some text => .ok text
  | none => .error .invalid

def jsonLoads (text : String) : Except Error Value :=
  match loads text.toList with
  | some value => .ok value
  | none => .error .invalid

def parseLock (conv : Conversions) (content : ByteArray) : Except Error ActiveRunInfo := do
  let text ← readText content
  let data ← jsonLoads text
  conv.fromDict data

/-- The arguments of a registration, with the time and the directory of it. -/
structure Registration where
  command : String
  startedAt : String
  dbPath : Option String
  cwd : String
  argv : List String

def Registration.payload (registration : Registration) (self : Int) : Value :=
  .object [("pid", .number (.int self)), ("command", .str registration.command),
    ("started_at", .str registration.startedAt),
    ("db_path", match registration.dbPath.filter (· ≠ "") with
      | some path => .str path
      | none => .null),
    ("cwd", .str registration.cwd), ("argv", .array (registration.argv.map .str))]

def Registration.lockText (registration : Registration) (self : Int) : ByteArray :=
  (String.ofList (dumps (some 2) (registration.payload self) ++ ['\n'])).toUTF8

/-- How a registration ends; SystemExit carries its message. -/
inductive Outcome where
  | returned
  | exits (message : String)
  | raises (error : Error)
  deriving DecidableEq

def concurrentMessage : String :=
  "ERROR: failed to acquire run.lock (concurrent campaign started?)"

def registeredMessage (existing : ActiveRunInfo) : String :=
  "ERROR: active run already registered (pid " ++ toString existing.pid ++ ", " ++ existing.command ++
    "). Stop with: bs stop"

section alone

variable (conv : Conversions) (processes : Processes) (self : Int)

/-- With nobody else at work the lock is its content, if it exists. -/
def readActiveRun (lock : Option ByteArray) :
    Except Error (Option ActiveRunInfo) × Option ByteArray :=
  match lock with
  | none => (.ok none, none)
  | some content => match parseLock conv content with
      | .error .invalid => (.ok none, some content)
      | .error .overflow => (.error .overflow, some content)
      | .ok info =>
          if info.pid = self then (.ok (some info), some content)
          else match isPidAlive processes info.pid with
            | .error error => (.error error, some content)
            | .ok alive =>
                if !alive || !cmdlineLooksLikeCampaign processes info.pid then (.ok none, none)
                else (.ok (some info), some content)

/-- O_CREAT | O_EXCL: only a lock that does not exist is written. -/
def writeRunLockExclusive (registration : Registration) (lock : Option ByteArray) :
    Option ByteArray :=
  match lock with
  | some _ => none
  | none => some (registration.lockText self)

def writeLast (registration : Registration) (lock : Option ByteArray) : Outcome × Option ByteArray :=
  match writeRunLockExclusive self registration lock with
  | some content => (.returned, some content)
  | none => (.exits concurrentMessage, lock)

def registerActiveRun (registration : Registration) (lock : Option ByteArray) :
    Outcome × Option ByteArray :=
  match writeRunLockExclusive self registration lock with
  | some content => (.returned, some content)
  | none => match readActiveRun conv processes self lock with
      | (.error error, lock) => (.raises error, lock)
      | (.ok none, lock) => writeLast self registration lock
      | (.ok (some existing), lock) =>
          if existing.pid = self then writeLast self registration none
          else match isPidAlive processes existing.pid with
            | .error error => (.raises error, lock)
            | .ok true => (.exits (registeredMessage existing), lock)
            | .ok false => writeLast self registration none

end alone

end Blockchecks.RunControl
