import Pipeworks.Json.Basic
/-!
# Printing documents

A value is printed on one line, without blanks. Only quotes, backslashes and controls are escaped.
-/

namespace Pipeworks.Json

def hexDigit (n : Nat) : Char := Nat.digitChar n

/-- The letter that stands for a control which has one. -/
def controlLetter? (c : Char) : Option Char :=
  [('\x08', 'b'), ('\x0c', 'f'), ('\n', 'n'), ('\r', 'r'), ('\t', 't')].lookup c

/-- A character of a text. -/
def printedChar (c : Char) : List Char :=
  if c = '"' ∨ c = '\\' then ['\\', c]
  else match controlLetter? c with
    | some l => ['\\', l]
    | none =>
      if c.toNat < 0x20 then
        ['\\', 'u', '0', '0', hexDigit (c.toNat / 16), hexDigit (c.toNat % 16)]
      else [c]

def printedText (s : String) : String := String.ofList ('"' :: s.toList.flatMap printedChar ++ ['"'])

def Number.print (n : Number) : String :=
  (if n.negative then "-" else "") ++ toString n.whole
    ++ (if n.fraction.isEmpty then "" else "." ++ String.join (n.fraction.map toString))
    ++ n.exponent.elim "" fun e => "e" ++ toString e

mutual

def print : Json → String
  | null => "null"
  | bool b => if b then "true" else "false"
  | number n => n.print
  | text none => "null"
  | text (some s) => printedText s
  | array items => "[" ++ ",".intercalate (printItems items) ++ "]"
  | object ms => "\x7b" ++ ",".intercalate (printMembers ms) ++ "\x7d"

def printItems : List Json → List String
  | [] => []
  | v :: vs => print v :: printItems vs

/-- The members that have a name. -/
def printMembers : List (Option String × Json) → List String
  | [] => []
  | (none, _) :: ms => printMembers ms
  | (some s, v) :: ms => (printedText s ++ ":" ++ print v) :: printMembers ms

end

end Pipeworks.Json
