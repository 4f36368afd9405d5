import Mathlib.Data.List.Basic

namespace Blockchecks.Regex

/-- What the word and the digit class accept. -/
structure CharClasses where
  isWord : Char → Bool
  isDigit : Char → Bool

inductive Pattern where
  | nothing
  | one (accepts : Char → Bool)
  | many (accepts : Char → Bool)
  | optional (p : Pattern)
  | seq (p q : Pattern)
  | alt (p q : Pattern)
  | wordBoundary
  | notAhead (accepts : Char → Bool)

/-- A place in a text: the character before it and the text after it. -/
structure Place where
  before : Option Char
  after : List Char
  deriving DecidableEq

def manyEnds (accepts : Char → Bool) : Option Char → List Char → List Place
  | before, [] => [⟨before, []⟩]
  | before, c :: cs =>
      ⟨before, c :: cs⟩ :: if accepts c then manyEnds accepts (some c) cs else []

/-- All places at which a match of the pattern from this place can end. -/
def ends (classes : CharClasses) : Pattern → Place → List Place
  | .nothing, p => [p]
  | .one accepts, p => match p.after with
    | [] => []
    | c :: cs => if accepts c then [⟨some c, cs⟩] else []
  | .many accepts, p => manyEnds accepts p.before p.after
  | .optional a, p => p :: ends classes a p
  | .seq a b, p => (ends classes a p).flatMap (ends classes b)
  | .alt a b, p => ends classes a p ++ ends classes b p
  | .wordBoundary, p =>
      if p.before.any classes.isWord = p.after.head?.any classes.isWord then [] else [p]
  | .notAhead accepts, p => if p.after.head?.any accepts then [] else [p]

def searchFrom (classes : CharClasses) (pattern : Pattern) : Option Char → List Char → Bool
  | before, [] => !(ends classes pattern ⟨before, []⟩).isEmpty
  | before, c :: cs =>
      !(ends classes pattern ⟨before, c :: cs⟩).isEmpty || searchFrom classes pattern (some c) cs

def search (classes : CharClasses) (pattern : Pattern) (text : String) : Bool :=
  searchFrom classes pattern none text.toList

/-- The letter that a character is compared as when case is ignored. Besides the
capital letters there are four characters outside ASCII that match a letter. -/
def foldCase (c : Char) : Char :=
  if c = '\u0130' ∨ c = '\u0131' then 'i'
  else if c = '\u212a' then 'k'
  else if c = '\u017f' then 's'
  else c.toLower

def letter (expected : Char) : Pattern := .one (fun c => foldCase c == foldCase expected)

def word (text : String) : Pattern :=
  text.toList.foldr (fun c rest => .seq (letter c) rest) .nothing

def anything : Pattern := .many (fun c => c != '\n')

def oneOf : List Pattern → Pattern
  | [] => .one (fun _ => false)
  | [p] => p
  | p :: ps => .alt p (oneOf ps)

def inOrder : List Pattern → Pattern
  | [] => .nothing
  | p :: ps => .seq p (inOrder ps)

end Blockchecks.Regex
