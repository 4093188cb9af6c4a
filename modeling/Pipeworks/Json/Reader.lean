import Pipeworks.Json.Token
import Pipeworks.Trail
/-!
# Reading documents

A document is read token by token. What is open around the current place is a stack: the arrays and
objects that have begun and not ended, the innermost first.
-/

namespace Pipeworks.Json

/-- An array or an object that has not ended. -/
inductive Open where
  | array (items : Trail Json)
  | object (members : Trail (Option String × Json))
  /-- An object whose last member has its name and waits for its value. -/
  | member (members : Trail (Option String × Json)) (name : Option String)

/-- What may stand at the current place. -/
inductive Place where
  | value
  /-- The first item of an array, or its end. -/
  | firstItem
  /-- The first name of an object, or its end. -/
  | firstName
  | name
  | colon
  /-- A comma, or the end of what is open. -/
  | separator

structure Reader where
  place : Place
  stack : List Open
  /-- The value of the document, once it has ended. -/
  result : Option Json

namespace Reader

def start : Reader := ⟨.value, [], none⟩

/-- A value has ended at the current place. -/
def put (v : Json) : List Open → Option Reader
  | [] => some ⟨.separator, [], some v⟩
  | .array items :: stack => some ⟨.separator, .array (items.push v) :: stack, none⟩
  | .member members name :: stack =>
    some ⟨.separator, .object (members.push (name, v)) :: stack, none⟩
  | .object _ :: _ => none

/-- What is open innermost ends. -/
def close (t : Token) : List Open → Option Reader
  | .array items :: stack => match t with | .closeArray => put (.array items.toList) stack | _ => none
  | .object members :: stack => match t with | .closeObject => put (.object members.toList) stack | _ => none
  | _ => none

/-- A token where a value may begin. -/
def begin (t : Token) (stack : List Open) : Option Reader :=
  match t with
  | .openArray => some ⟨.firstItem, .array ∅ :: stack, none⟩
  | .openObject => some ⟨.firstName, .object ∅ :: stack, none⟩
  | .null => put .null stack
  | .bool b => put (.bool b) stack
  | .number n => put (.number n) stack
  | .text s => put (.text s) stack
  | _ => none

/-- A token where the name of a member must stand. -/
def name (t : Token) : List Open → Option Reader
  | .object members :: stack =>
    match t with
    | .text s => some ⟨.colon, .member members s :: stack, none⟩
    | _ => none
  | _ => none

/-- A comma: another item or another member follows. -/
def more (stack : List Open) : Option Reader :=
  match stack with
  | .array _ :: _ => some ⟨.value, stack, none⟩
  | .object _ :: _ => some ⟨.name, stack, none⟩
  | _ => none

def step (r : Reader) (t : Token) : Option Reader :=
  match r.place, t with
  | .value, t => begin t r.stack
  | .firstItem, .closeArray => close .closeArray r.stack
  | .firstItem, t => begin t r.stack
  | .firstName, .closeObject => close .closeObject r.stack
  | .firstName, t => name t r.stack
  | .name, t => name t r.stack
  | .colon, .colon => some ⟨.value, r.stack, none⟩
  | .colon, _ => none
  | .separator, .comma => more r.stack
  | .separator, t => close t r.stack

end Reader

/-- The value of a document, or nothing if the text is not one. -/
def ofText? (s : String) : Option Json := do
  (← (← Token.ofText? s).foldlM Reader.step Reader.start).result

end Pipeworks.Json
