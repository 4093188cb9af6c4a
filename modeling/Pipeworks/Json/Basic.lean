import Pipeworks.Duration
/-!
# JSON values

A value keeps what its document says and no more: a number is kept as it is written, and a text with
half of a surrogate pair has no characters, which matters only to a reader that asks for them. Members
of an object stay in the order of the document, repeated names included.
-/

namespace Pipeworks

/-- A number as it is written: sign, whole part, digits behind the point, exponent. -/
structure Json.Number where
  negative : Bool
  whole : Nat
  fraction : List Nat
  exponent : Option Int
  deriving DecidableEq

inductive Json where
  | null
  | bool (b : Bool)
  | number (n : Json.Number)
  | text (s : Option String)
  | array (items : List Json)
  | object (members : List (Option String × Json))

namespace Json

instance : Inhabited Json := ⟨null⟩

def nat (n : Nat) : Json := number ⟨false, n, [], none⟩

def int (n : Int) : Json := number ⟨decide (n < 0), n.natAbs, [], none⟩

def string (s : String) : Json := text (some s)

/-- The text of a value that may be missing. -/
def orNull {α : Type} (f : α → Json) (a : Option α) : Json := a.elim null f

/-- An object with the given members. -/
def record (members : List (String × Json)) : Json := object (members.map fun m => (some m.1, m.2))

/-- The members of one record and then those of another. -/
def merge : Json → Json → Json
  | object a, object b => object (a ++ b)
  | v, _ => v

/-- The member of an object with a name, unless it is null. -/
def member? (v : Json) (name : String) : Option Json :=
  match v with
  | object ms =>
    match ms.lookup (some name) with
    | some null => none
    | m => m
  | _ => none

def items? : Json → Option (List Json)
  | array items => some items
  | _ => none

namespace Number

/-- A number without a fraction and without an exponent. -/
def isWhole (n : Number) : Bool := n.fraction.isEmpty && n.exponent.isNone

/-- The number as a word of 64 bits. -/
def word? (n : Number) : Option Nat :=
  if n.isWhole && !n.negative && n.whole ≤ maxWord then some n.whole else none

/-- The number as a signed word of 64 bits. A zero with a minus sign is not one. -/
def signedWord? (n : Number) : Option Int :=
  if !n.isWhole then none
  else if n.negative then if 0 < n.whole ∧ n.whole ≤ 0x8000000000000000 then some (-n.whole) else none
  else if n.whole < 0x8000000000000000 then some n.whole else none

end Number
end Json
end Pipeworks
