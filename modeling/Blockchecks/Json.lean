import Mathlib.Data.List.TakeWhile
import Mathlib.Data.Nat.Digits.Lemmas

namespace Blockchecks.Json

def isDigit (c : Char) : Bool := decide ('0' ≤ c ∧ c ≤ '9')

/-- The fraction of a number with its point, or nothing. -/
def IsFraction (text : List Char) : Prop :=
  text = [] ∨ ∃ digits, text = '.' :: digits ∧ digits ≠ [] ∧ ∀ c ∈ digits, isDigit c

def IsExponent (text : List Char) : Prop :=
  text = [] ∨ ∃ e sign digits, text = e :: (sign ++ digits) ∧ (e = 'e' ∨ e = 'E') ∧
    (sign = [] ∨ sign = ['+'] ∨ sign = ['-']) ∧ digits ≠ [] ∧ ∀ c ∈ digits, isDigit c

/-- A float by the text of its literal. -/
structure FloatLiteral where
  negative : Bool
  whole : Nat
  fraction : List Char
  exponent : List Char
  isFraction : IsFraction fraction
  isExponent : IsExponent exponent
  notInt : fraction ++ exponent ≠ []

inductive Number where
  | int (n : Int)
  | float (literal : FloatLiteral)
  | nan
  | infinity (negative : Bool)

/-- What Python's json reads and writes. An object keeps its members in their
order in the text. -/
inductive Value where
  | null
  | bool (b : Bool)
  | number (n : Number)
  | str (s : String)
  | array (items : List Value)
  | object (members : List (String × Value))

/-- Of members with one key the last counts. -/
def get? (members : List (String × Value)) (key : String) : Option Value :=
  (members.reverse.find? (fun m => m.1 = key)).map Prod.snd

/-! Writing: json.dumps, with every character outside ASCII escaped. -/

def digitChar (d : Nat) : Char := Char.ofNat ('0'.toNat + d)

def natText (n : Nat) : List Char :=
  if n = 0 then ['0'] else ((Nat.digits 10 n).reverse).map digitChar

def sign (negative : Bool) : List Char := if negative then ['-'] else []

def intText (n : Int) : List Char := sign (decide (n < 0)) ++ natText n.natAbs

def FloatLiteral.text (x : FloatLiteral) : List Char :=
  sign x.negative ++ (natText x.whole ++ (x.fraction ++ x.exponent))

def Number.text : Number → List Char
  | .int n => intText n
  | .float literal => literal.text
  | .nan => "NaN".toList
  | .infinity negative => sign negative ++ "Infinity".toList

def hexChar (d : Nat) : Char := if d < 10 then digitChar d else Char.ofNat ('a'.toNat + (d - 10))

def unicodeEscape (n : Nat) : List Char :=
  ['\\', 'u', hexChar (n / 4096 % 16), hexChar (n / 256 % 16), hexChar (n / 16 % 16), hexChar (n % 16)]

def escapeChar (c : Char) : List Char :=
  if c = '"' then ['\\', '"']
  else if c = '\\' then ['\\', '\\']
  else if c = '\n' then ['\\', 'n']
  else if c = '\r' then ['\\', 'r']
  else if c = '\t' then ['\\', 't']
  else if c = '\x0c' then ['\\', 'f']
  else if c = '\x08' then ['\\', 'b']
  else if ' ' ≤ c ∧ c ≤ '~' then [c]
  else if c.toNat < 0x10000 then unicodeEscape c.toNat
  else unicodeEscape (0xd800 + (c.toNat - 0x10000) / 0x400) ++
    unicodeEscape (0xdc00 + (c.toNat - 0x10000) % 0x400)

def stringText (s : String) : List Char := '"' :: (s.toList.flatMap escapeChar ++ ['"'])

/-- With an indent every member stands on a line of its own. -/
def newline (indent : Option Nat) (level : Nat) : List Char :=
  match indent with
  | none => []
  | some width => '\n' :: List.replicate (width * level) ' '

def separator (indent : Option Nat) (level : Nat) : List Char :=
  match indent with
  | none => [',', ' ']
  | some _ => ',' :: newline indent level

mutual

def dumpAt (indent : Option Nat) (level : Nat) : Value → List Char
  | .null => "null".toList
  | .bool b => if b then "true".toList else "false".toList
  | .number n => n.text
  | .str s => stringText s
  | .array [] => ['[', ']']
  | .array (item :: items) =>
      '[' :: (newline indent (level + 1) ++ (dumpAt indent (level + 1) item ++
        (dumpItems indent (level + 1) items ++ (newline indent level ++ [']']))))
  | .object [] => ['{', '}']
  | .object ((key, value) :: members) =>
      '{' :: (newline indent (level + 1) ++ (stringText key ++ (':' :: ' ' ::
        (dumpAt indent (level + 1) value ++
          (dumpMembers indent (level + 1) members ++ (newline indent level ++ ['}']))))))

def dumpItems (indent : Option Nat) (level : Nat) : List Value → List Char
  | [] => []
  | item :: items =>
      separator indent level ++ (dumpAt indent level item ++ dumpItems indent level items)

def dumpMembers (indent : Option Nat) (level : Nat) : List (String × Value) → List Char
  | [] => []
  | (key, value) :: members =>
      separator indent level ++ (stringText key ++ (':' :: ' ' ::
        (dumpAt indent level value ++ dumpMembers indent level members)))

end

def dumps (indent : Option Nat) (value : Value) : List Char := dumpAt indent 0 value

/-! Reading: json.loads. -/

def isWhitespace (c : Char) : Bool := c = ' ' || c = '\t' || c = '\n' || c = '\r'

def skipWhitespace (text : List Char) : List Char := text.dropWhile isWhitespace

def digitValue (c : Char) : Nat := c.toNat - '0'.toNat

def decimal (digits : List Char) : Nat := digits.foldl (fun n c => 10 * n + digitValue c) 0

/-- A zero stands alone, other numbers do not begin with one. -/
def scanNat : List Char → Option (Nat × List Char)
  | '0' :: rest => some (0, rest)
  | text =>
      let digits := text.takeWhile isDigit
      if digits = [] then none else some (decimal digits, text.dropWhile isDigit)

def scanSign : List Char → Bool × List Char
  | '-' :: rest => (true, rest)
  | text => (false, text)

def scanFraction : List Char → List Char × List Char
  | '.' :: rest =>
      if rest.takeWhile isDigit = [] then ([], '.' :: rest)
      else ('.' :: rest.takeWhile isDigit, rest.dropWhile isDigit)
  | text => ([], text)

def scanExponentSign : List Char → List Char × List Char
  | '+' :: rest => (['+'], rest)
  | '-' :: rest => (['-'], rest)
  | text => ([], text)

def scanExponent : List Char → List Char × List Char
  | [] => ([], [])
  | e :: rest =>
      let signed := scanExponentSign rest
      if (e = 'e' ∨ e = 'E') ∧ signed.2.takeWhile isDigit ≠ [] then
        (e :: (signed.1 ++ signed.2.takeWhile isDigit), signed.2.dropWhile isDigit)
      else ([], e :: rest)

theorem scanFraction_isFraction (text : List Char) : IsFraction (scanFraction text).1 := by
  rw [scanFraction.eq_def]
  split
  · split
    · exact Or.inl rfl
    next h => exact Or.inr ⟨_, rfl, h, fun c hc => List.mem_takeWhile_imp hc⟩
  · exact Or.inl rfl

theorem scanExponent_isExponent (text : List Char) : IsExponent (scanExponent text).1 := by
  cases text with
  | nil => exact Or.inl rfl
  | cons e rest =>
      rw [scanExponent]
      split
      next h =>
        refine Or.inr ⟨e, _, _, rfl, h.1, ?_, h.2, fun c hc => List.mem_takeWhile_imp hc⟩
        rw [scanExponentSign.eq_def]
        split
        · exact Or.inr (Or.inl rfl)
        · exact Or.inr (Or.inr rfl)
        · exact Or.inl rfl
      next => exact Or.inl rfl

def scanDigits (text : List Char) : Option (Number × List Char) :=
  let signed := scanSign text
  (scanNat signed.2).map (fun p =>
    let fraction := scanFraction p.2
    let exponent := scanExponent fraction.2
    if h : fraction.1 ++ exponent.1 = [] then
      (.int (if signed.1 then -p.1 else p.1), p.2)
    else
      (.float ⟨signed.1, p.1, fraction.1, exponent.1, scanFraction_isFraction _,
        scanExponent_isExponent _, h⟩, exponent.2))

def scanWord (word : String) (text : List Char) : Option (List Char) :=
  if word.toList.isPrefixOf text then some (text.drop word.toList.length) else none

def scanConstant : List (String × Value) → List Char → Option (Value × List Char)
  | [], _ => none
  | (word, value) :: words, text =>
      match scanWord word text with
      | some rest => some (value, rest)
      | none => scanConstant words text

def hexValue (c : Char) : Option Nat :=
  if isDigit c then some (digitValue c)
  else if 'a' ≤ c ∧ c ≤ 'f' then some (c.toNat - 'a'.toNat + 10)
  else if 'A' ≤ c ∧ c ≤ 'F' then some (c.toNat - 'A'.toNat + 10)
  else none

def hex4 (a b c d : Char) : Option Nat := do
  let a ← hexValue a
  let b ← hexValue b
  let c ← hexValue c
  let d ← hexValue d
  return 4096 * a + 256 * b + 16 * c + d

def unescape (c : Char) : Option Char :=
  if c = '"' ∨ c = '\\' ∨ c = '/' then some c
  else if c = 'b' then some '\x08'
  else if c = 'f' then some '\x0c'
  else if c = 'n' then some '\n'
  else if c = 'r' then some '\r'
  else if c = 't' then some '\t'
  else none

def isHighSurrogate (n : Nat) : Prop := 0xd800 ≤ n ∧ n ≤ 0xdbff

def isLowSurrogate (n : Nat) : Prop := 0xdc00 ≤ n ∧ n ≤ 0xdfff

instance (n : Nat) : Decidable (isHighSurrogate n) := inferInstanceAs (Decidable (_ ∧ _))

instance (n : Nat) : Decidable (isLowSurrogate n) := inferInstanceAs (Decidable (_ ∧ _))

/-- A lone surrogate is no character of Lean's and is read as U+FFFD. -/
def charOf (n : Nat) : Char :=
  if isHighSurrogate n ∨ isLowSurrogate n then '\ufffd' else Char.ofNat n

def joinSurrogates : List Nat → List Char
  | [] => []
  | [n] => [charOf n]
  | n :: m :: units =>
      if isHighSurrogate n ∧ isLowSurrogate m then
        Char.ofNat (0x10000 + (0x400 * (n - 0xd800) + (m - 0xdc00))) :: joinSurrogates units
      else charOf n :: joinSurrogates (m :: units)

def push (n : Nat) (p : List Nat × List Char) : List Nat × List Char := (n :: p.1, p.2)

/-- The code units of a string after its opening quote, and what follows it. -/
def scanUnits : List Char → Option (List Nat × List Char)
  | [] => none
  | '"' :: rest => some ([], rest)
  | '\\' :: 'u' :: a :: b :: c :: d :: rest =>
      (hex4 a b c d).bind (fun n => (scanUnits rest).map (push n))
  | '\\' :: c :: rest => (unescape c).bind (fun c' => (scanUnits rest).map (push c'.toNat))
  | c :: rest =>
      if c = '\\' ∨ c.toNat < 0x20 then none else (scanUnits rest).map (push c.toNat)

def scanString (text : List Char) : Option (String × List Char) :=
  (scanUnits text).map (fun p => (String.ofList (joinSurrogates p.1), p.2))

def constants : List (String × Value) :=
  [("null", .null), ("true", .bool true), ("false", .bool false), ("NaN", .number .nan),
    ("Infinity", .number (.infinity false)), ("-Infinity", .number (.infinity true))]

def scanAtom (text : List Char) : Option (Value × List Char) :=
  match scanConstant constants text with
  | some p => some p
  | none => (scanDigits text).map (fun p => (.number p.1, p.2))

mutual

def scanOnce : Nat → List Char → Option (Value × List Char)
  | 0, _ => none
  | fuel + 1, text => match text with
      | '"' :: rest => (scanString rest).map (fun p => (.str p.1, p.2))
      | '{' :: rest => match skipWhitespace rest with
          | '}' :: rest' => some (.object [], rest')
          | body => (scanMembers fuel body).map (fun p => (.object p.1, p.2))
      | '[' :: rest => match skipWhitespace rest with
          | ']' :: rest' => some (.array [], rest')
          | body => (scanItems fuel body).map (fun p => (.array p.1, p.2))
      | _ => scanAtom text

def scanItems : Nat → List Char → Option (List Value × List Char)
  | 0, _ => none
  | fuel + 1, text => (scanOnce fuel text).bind (fun p =>
      match skipWhitespace p.2 with
      | ']' :: rest => some ([p.1], rest)
      | ',' :: rest => (scanItems fuel (skipWhitespace rest)).map (fun q => (p.1 :: q.1, q.2))
      | _ => none)

def scanMembers : Nat → List Char → Option (List (String × Value) × List Char)
  | 0, _ => none
  | fuel + 1, text => match text with
      | '"' :: rest => (scanString rest).bind (fun key =>
          match skipWhitespace key.2 with
          | ':' :: rest => (scanOnce fuel (skipWhitespace rest)).bind (fun p =>
              match skipWhitespace p.2 with
              | '}' :: rest => some ([(key.1, p.1)], rest)
              | ',' :: rest =>
                  (scanMembers fuel (skipWhitespace rest)).map (fun q => ((key.1, p.1) :: q.1, q.2))
              | _ => none)
          | _ => none)
      | _ => none

end

/-- One value with nothing but whitespace around it. -/
def loads (text : List Char) : Option Value :=
  (scanOnce (text.length + 1) (skipWhitespace text)).bind (fun p =>
    if skipWhitespace p.2 = [] then some p.1 else none)

end Blockchecks.Json
