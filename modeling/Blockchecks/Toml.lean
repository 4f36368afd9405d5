import Mathlib.Data.List.Basic
import Mathlib.Data.List.Nodup

namespace Blockchecks.Toml

/-- The control characters that stand nowhere in TOML but as an escape. -/
def control (c : Char) : Bool := (decide (c.toNat < 0x20) && c != '\t') || c.toNat == 0x7F

section lexing

inductive Token where
  | word (text : List Char)
  | text (content : List Char)
  | equals
  | comma
  | opening
  | closing
  deriving DecidableEq

/-- Where the lexer is within a line. -/
inductive Mode where
  | between
  | word (text : List Char)
  | text (content : List Char)
  | escape (content : List Char)
  | code (content : List Char) (left value : Nat)
  | comment
  deriving DecidableEq

/-- What a bare key, a number and a truth value are made of. -/
def wordChar (c : Char) : Bool := c.isAlphanum || c == '_' || c == '-' || c == '+'

def escaped (c : Char) : Option Char :=
  match c with
  | 'b' => some '\x08'
  | 't' => some '\t'
  | 'n' => some '\n'
  | 'f' => some '\x0c'
  | 'r' => some '\r'
  | '"' => some '"'
  | '\\' => some '\\'
  | _ => none

def hexDigit (c : Char) : Option Nat :=
  if c.isDigit then some (c.toNat - '0'.toNat)
  else if 'a' ≤ c ∧ c ≤ 'f' then some (c.toNat - 'a'.toNat + 10)
  else if 'A' ≤ c ∧ c ≤ 'F' then some (c.toNat - 'A'.toNat + 10)
  else none

/-- A character with which a token, a comment or a blank begins. -/
def start (c : Char) : Option (Mode × List Token) :=
  if c = ' ' ∨ c = '\t' then some (.between, [])
  else if c = '"' then some (.text [], [])
  else if c = '#' then some (.comment, [])
  else if c = '=' then some (.between, [.equals])
  else if c = ',' then some (.between, [.comma])
  else if c = '[' then some (.between, [.opening])
  else if c = ']' then some (.between, [.closing])
  else if wordChar c then some (.word [c], [])
  else none

def step : Mode → Char → Option (Mode × List Token)
  | .between, c => start c
  | .word text, c =>
      if wordChar c then some (.word (text ++ [c]), [])
      else (start c).map (fun next => (next.1, .word text :: next.2))
  | .text content, c =>
      if c = '"' then some (.between, [.text content])
      else if c = '\\' then some (.escape content, [])
      else if control c then none
      else some (.text (content ++ [c]), [])
  | .escape content, c =>
      if c = 'u' then some (.code content 4 0, [])
      else if c = 'U' then some (.code content 8 0, [])
      else (escaped c).map (fun d => (.text (content ++ [d]), []))
  | .code content left value, c =>
      (hexDigit c).bind fun digit =>
        if 1 < left then some (.code content (left - 1) (16 * value + digit), [])
        else if (16 * value + digit).isValidChar then
          some (.text (content ++ [Char.ofNat (16 * value + digit)]), [])
        else none
  | .comment, c => if control c then none else some (.comment, [])

def run (mode : Mode) : List Char → Option (Mode × List Token)
  | [] => some (mode, [])
  | c :: text => (step mode c).bind fun next => (run next.1 text).map fun last => (last.1, next.2 ++ last.2)

/-- The tokens that the end of a line completes; none within a string. -/
def finish : Mode → Option (List Token)
  | .between => some []
  | .comment => some []
  | .word text => some [.word text]
  | _ => none

def lex (line : List Char) : Option (List Token) :=
  (run .between line).bind fun last => (finish last.1).map fun tokens => last.2 ++ tokens

end lexing

section values

/-- What an entry of a table may hold here: no dates, fractions or tables on one line. -/
inductive Leaf where
  | bool (b : Bool)
  | int (n : Int)
  | text (s : String)
  | texts (items : List String)
  deriving DecidableEq

/-- A number in decimals, without a zero in front. -/
def natural (digits : List Char) : Option Nat :=
  let n := Nat.ofDigitChars 10 digits 0
  if (Nat.repr n).toList = digits then some n else none

def integer : List Char → Option Int
  | '-' :: digits => (natural digits).map (fun n => -(n : Int))
  | '+' :: digits => (natural digits).map (fun n => (n : Int))
  | digits => (natural digits).map (fun n => (n : Int))

def scalar (text : List Char) : Option Leaf :=
  if text = "true".toList then some (.bool true)
  else if text = "false".toList then some (.bool false)
  else (integer text).map .int

/-- The strings of an array, up to the bracket that closes it. A comma may stand behind the last. -/
def arrayItems : List Token → Option (List String)
  | [.closing] => some []
  | [.text content, .closing] => some [String.ofList content]
  | .text content :: .comma :: tokens => (arrayItems tokens).map (String.ofList content :: ·)
  | _ => none

def leaf : List Token → Option Leaf
  | [.text content] => some (.text (String.ofList content))
  | [.word text] => scalar text
  | .opening :: tokens => (arrayItems tokens).map .texts
  | _ => none

def bareKey (text : List Char) : Bool := text.all (fun c => c != '+')

/-- What a line says. -/
inductive Statement where
  | blank
  | header (name : String)
  | element (name : String)
  | entry (key : String) (value : Leaf)
  deriving DecidableEq

def statementOf : List Token → Option Statement
  | [] => some .blank
  | [.opening, .word name, .closing] => if bareKey name then some (.header (String.ofList name)) else none
  | [.opening, .opening, .word name, .closing, .closing] =>
      if bareKey name then some (.element (String.ofList name)) else none
  | .word key :: .equals :: tokens => if bareKey key then (leaf tokens).map (.entry (String.ofList key)) else none
  | _ => none

def statement (line : List Char) : Option Statement := (lex line).bind statementOf

end values

section documents

abbrev Table := List (String × Leaf)

inductive Node where
  | leaf (value : Leaf)
  | table (entries : Table)
  | tables (elements : List Table)
  deriving DecidableEq

abbrev Document := List (String × Node)

/-- To what the entries of a line belong. -/
inductive Place where
  | top
  | table (name : String)
  | element (name : String)
  deriving DecidableEq

/-- Add one more element to the tables of a name. -/
def addElement (name : String) (entries : Table) : Document → Option Document
  | [] => some [(name, .tables [entries])]
  | (other, node) :: document =>
      if other = name then
        match node with
        | .tables elements => some ((other, .tables (elements ++ [entries])) :: document)
        | _ => none
      else (addElement name entries document).map ((other, node) :: ·)

/-- The document with all entries of a place; no name is given twice. -/
def close (document : Document) (entries : Table) : Place → Option Document
  | .top => some (document ++ entries.map (fun e => (e.1, .leaf e.2)))
  | .table name =>
      if name ∈ document.map Prod.fst then none else some (document ++ [(name, .table entries)])
  | .element name => addElement name entries document

def assemble (document : Document) (place : Place) (entries : Table) : List Statement → Option Document
  | [] => close document entries place
  | .blank :: statements => assemble document place entries statements
  | .entry key value :: statements =>
      if key ∈ entries.map Prod.fst then none
      else assemble document place (entries ++ [(key, value)]) statements
  | .header name :: statements =>
      (close document entries place).bind fun document => assemble document (.table name) [] statements
  | .element name :: statements =>
      (close document entries place).bind fun document => assemble document (.element name) [] statements

/-- A text in the part of TOML 1.0 in which every statement stands on one line, keys are
bare, tables are not nested and arrays hold strings. -/
def loads (text : List Char) : Option Document :=
  ((text.splitOn '\n').mapM statement).bind (assemble [] .top [])

end documents

example : loads "a = \"x\\u00e9\" # note\n[t]\nb = [\"p\", \"q\",]\nc = -12\n[[u]]\n[[u]]\nd = true\n".toList =
    some [("a", .leaf (.text "xé")), ("t", .table [("b", .texts ["p", "q"]), ("c", .int (-12))]),
      ("u", .tables [[], [("d", .bool true)]])] := by decide

end Blockchecks.Toml
