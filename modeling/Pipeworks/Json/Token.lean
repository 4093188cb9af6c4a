import Pipeworks.Json.Basic
/-!
# Tokens of a document

A document is a list of tokens with blanks between them. Each token takes characters off the front of
what is left, so reading ends.
-/

namespace Pipeworks.Json

inductive Token where
  | openArray
  | closeArray
  | openObject
  | closeObject
  | comma
  | colon
  | null
  | bool (b : Bool)
  | number (n : Number)
  | text (s : Option String)

namespace Token

/-- The characters that may stand between tokens. -/
def isBlank (c : Char) : Bool := c == ' ' || c == '\n' || c == '\t' || c == '\r'

/-! ### Texts -/

/-- A part of a text: a character, or an escaped unit of sixteen bits. -/
inductive Piece where
  | char (c : Char)
  | unit (n : Nat)

def hexDigit? (c : Char) : Option Nat :=
  if '0' ≤ c ∧ c ≤ '9' then some (c.toNat - '0'.toNat)
  else if 'a' ≤ c ∧ c ≤ 'f' then some (c.toNat - 'a'.toNat + 10)
  else if 'A' ≤ c ∧ c ≤ 'F' then some (c.toNat - 'A'.toNat + 10)
  else none

def unit? (a b c d : Char) : Option Piece := do
  pure (.unit ((((← hexDigit? a) * 16 + (← hexDigit? b)) * 16 + (← hexDigit? c)) * 16 + (← hexDigit? d)))

/-- The character that a letter behind a backslash stands for. -/
def escape? : Char → Option Char
  | '"' => some '"'
  | '\\' => some '\\'
  | '/' => some '/'
  | 'b' => some '\x08'
  | 'f' => some '\x0c'
  | 'n' => some '\n'
  | 'r' => some '\r'
  | 't' => some '\t'
  | _ => none

/-- Adds a piece to the front of a text that was read. -/
def cons (p : Piece) (r : List Piece × List Char) : List Piece × List Char := (p :: r.1, r.2)

/-- Reads a text up to its closing quote. -/
def pieces? : List Char → Option (List Piece × List Char)
  | [] => none
  | '"' :: rest => some ([], rest)
  | '\\' :: 'u' :: a :: b :: c :: d :: rest => (unit? a b c d).bind fun p => (pieces? rest).map (cons p)
  | '\\' :: c :: rest => (escape? c).bind fun e => (pieces? rest).map (cons (.char e))
  | c :: rest => if c.toNat < 0x20 ∨ c = '\\' then none else (pieces? rest).map (cons (.char c))

def isHigh (n : Nat) : Bool := 0xd800 ≤ n && n < 0xdc00

def isLow (n : Nat) : Bool := 0xdc00 ≤ n && n < 0xe000

/-- The characters of a text. A surrogate counts only as the half of a pair. -/
def chars? : List Piece → Option (List Char)
  | [] => some []
  | .char c :: ps => (chars? ps).map (c :: ·)
  | .unit h :: .unit l :: ps =>
    if isHigh h then
      if isLow l then
        (chars? ps).map (Char.ofNat (0x10000 + (h - 0xd800) * 0x400 + (l - 0xdc00)) :: ·)
      else none
    else if isLow h then none
    else (chars? (.unit l :: ps)).map (Char.ofNat h :: ·)
  | .unit h :: ps => if isHigh h || isLow h then none else (chars? ps).map (Char.ofNat h :: ·)

/-! ### Numbers -/

def digit? (c : Char) : Option Nat := if '0' ≤ c ∧ c ≤ '9' then some (c.toNat - '0'.toNat) else none

def isDigit (c : Char) : Bool := (digit? c).isSome

/-- The digits at the front, and the rest. -/
def digits (cs : List Char) : List Nat × List Char :=
  ((cs.takeWhile isDigit).filterMap digit?, cs.dropWhile isDigit)

def value (ds : List Nat) : Nat := ds.foldl (fun n d => n * 10 + d) 0

/-- Digits behind a point, at least one, if there is a point. -/
def fraction? : List Char → Option (List Nat × List Char)
  | '.' :: cs => if (digits cs).1.isEmpty then none else some (digits cs)
  | cs => some ([], cs)

/-- A sign that may be missing. -/
def sign : List Char → Bool × List Char
  | '-' :: cs => (true, cs)
  | '+' :: cs => (false, cs)
  | cs => (false, cs)

/-- An exponent of at least one digit, if there is its letter. -/
def exponent? : List Char → Option (Option Int × List Char)
  | c :: cs =>
    if c = 'e' ∨ c = 'E' then
      let (negative, cs) := sign cs
      let (ds, cs) := digits cs
      if ds.isEmpty then none else some (some (if negative then -(value ds : Int) else value ds), cs)
    else some (none, c :: cs)
  | [] => some (none, [])

/-- A number without its sign. A zero at the front stands alone. -/
def magnitude? (negative : Bool) (cs : List Char) : Option (Token × List Char) := do
  let (ds, cs) := digits cs
  guard (!ds.isEmpty && (ds.head? != some 0 || ds.length == 1))
  let (fraction, cs) ← fraction? cs
  let (exponent, cs) ← exponent? cs
  pure (.number ⟨negative, value ds, fraction, exponent⟩, cs)

/-! ### Documents -/

/-- The token that begins with a character, and what is left behind it. -/
def next? (c : Char) (cs : List Char) : Option (Token × List Char) :=
  match c, cs with
  | '[', cs => some (openArray, cs)
  | ']', cs => some (closeArray, cs)
  | '{', cs => some (openObject, cs)
  | '}', cs => some (closeObject, cs)
  | ',', cs => some (comma, cs)
  | ':', cs => some (colon, cs)
  | 'n', 'u' :: 'l' :: 'l' :: cs => some (null, cs)
  | 't', 'r' :: 'u' :: 'e' :: cs => some (bool true, cs)
  | 'f', 'a' :: 'l' :: 's' :: 'e' :: cs => some (bool false, cs)
  | '"', cs => (pieces? cs).map fun r => (text ((chars? r.1).map String.ofList), r.2)
  | '-', cs => magnitude? true cs
  | c, cs => if isDigit c then magnitude? false (c :: cs) else none

/-- The tokens of a document. Each takes at least one character, so there are at most `n` in a document
of `n` characters. -/
def lex : Nat → List Char → Option (List Token)
  | n, cs =>
    match n, cs.dropWhile isBlank with
    | _, [] => some []
    | 0, _ :: _ => none
    | n + 1, c :: cs => (next? c cs).bind fun r => (lex n r.2).map (r.1 :: ·)

def ofText? (s : String) : Option (List Token) := lex s.length s.toList

end Token
end Pipeworks.Json
