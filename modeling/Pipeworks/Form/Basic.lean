import Pipeworks.Json.Choices
import Pipeworks.Text.Decimal
/-!
# Forms

A form is a record that a person writes to describe a value. It is read by the names of its members;
others do not count, and a member that is null is not there. A count may be written as a text.
-/

namespace Pipeworks.Json

/-- A member that must be there. -/
def need {α : Type} (v : Json) (name : String) (f : Json → Option α) : Option α := (v.member? name).bind f

/-- A member that may be missing. -/
def maybe {α : Type} (v : Json) (name : String) (f : Json → Option α) : Option (Option α) :=
  match v.member? name with
  | none => some none
  | some m => (f m).map some

/-- A member with a value of its own if it is missing. -/
def maybeD {α : Type} (v : Json) (name : String) (f : Json → Option α) (d : α) : Option α :=
  (v.maybe name f).map (·.getD d)

/-- A list of values. -/
def list? {α : Type} (f : Json → Option α) (v : Json) : Option (List α) := do (← v.items?).mapM f

/-- A list that may be missing. -/
def many {α : Type} (v : Json) (name : String) (f : Json → Option α) : Option (List α) :=
  v.maybeD name (list? f) []

def strings? : Json → Option (List String) := list? string?

def count? : Json → Option Nat
  | number n => if n.isWhole && !n.negative then some n.whole else none
  | text (some s) => (Text.readLimit s.toList).toOption
  | _ => none

def integer? : Json → Option Int
  | number n => if n.isWhole then some (if n.negative then -n.whole else n.whole) else none
  | text (some s) =>
    match s.toList with
    | '-' :: c :: cs => ((Text.readDigits 0 (c :: cs)).toOption).map (-Int.ofNat ·)
    | cs => ((Text.readLimit cs).toOption).map Int.ofNat
  | _ => none

/-- A span of time: nanoseconds, or seconds and nanoseconds. -/
def duration? : Json → Option Nanos
  | array [s, n] => do pure ((← s.count?) * 1000000000 + (← n.count?))
  | v => v.count?

/-- A lifecycle as it is written, or with the size of its pool as a text. -/
def lifecycle? (v : Json) : Option Lifecycle :=
  Lifecycle.ofJson? v <|> do
    guard ((← v.need "mode" string?) = "pooled")
    pure (.pooled (← v.maybe "max" count?))

end Pipeworks.Json
