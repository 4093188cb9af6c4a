import Pipeworks.Json.Double
/-!
# Values read as records and choices

A record is written as an object, whose unknown members are passed over, or as an array of its fields in
order. A choice is written as its name, or as an object with the name for its only member. A tagged
choice carries its name in a member of its own, or in front of the rest of an array.
-/

namespace Pipeworks.Json

def bool? : Json → Option Bool
  | bool b => some b
  | _ => none

def string? : Json → Option String
  | text s => s
  | _ => none

/-- A count in a word of 64 bits. -/
def nat? : Json → Option Nat
  | number n => n.word?
  | _ => none

def int? : Json → Option Int
  | number n => n.signedWord?
  | _ => none

def double? : Json → Option Float
  | number n => n.toDouble?
  | _ => none

/-- A value that may be null. -/
def nullable? {α : Type} (f : Json → Option α) : Json → Option (Option α)
  | null => some none
  | v => (f v).map some

/-- The members of an object all of whose names have characters. -/
def members? : Json → Option (List (String × Json))
  | object ms => ms.mapM fun m => m.1.map (·, m.2)
  | _ => none

/-- A choice by name. -/
def choice? {α : Type} (ofName? : String → Option α) : Json → Option α
  | text s => s.bind ofName?
  | object [(s, null)] => s.bind ofName?
  | _ => none

/-! ### Records -/

/-- The fields that are given, by name or by place. -/
structure Fields where
  byPlace : Bool
  given : List (String × Json)

/-- The fields of a record with the given names. A field must not be given twice, and there must be no
item beyond the last field. -/
def fields? (names : List String) : Json → Option Fields
  | array items => if items.length ≤ names.length then some ⟨true, names.zip items⟩ else none
  | v => do
    let known := (← v.members?).filter (names.contains ·.1)
    guard (known.map (·.1)).Nodup
    pure ⟨false, known⟩

namespace Fields
variable {α : Type}

def find? (r : Fields) (name : String) : Option Json := r.given.lookup name

/-- A field that must be given. -/
def required (r : Fields) (name : String) (f : Json → Option α) : Option α := (r.find? name).bind f

/-- A field that may be missing. -/
def optional (r : Fields) (name : String) (f : Json → Option α) : Option (Option α) :=
  match r.find? name with
  | none => some none
  | some v => (f v).map some

/-- A field that may be missing among names, and may be null. -/
def nullable (r : Fields) (name : String) (f : Json → Option α) : Option (Option α) :=
  match r.find? name with
  | none => if r.byPlace then none else some none
  | some v => nullable? f v

end Fields

/-! ### Tagged choices -/

mutual

/-- How many arrays and objects are around the innermost value. -/
def depth : Json → Nat
  | array items => itemsDepth items + 1
  | object ms => membersDepth ms + 1
  | _ => 0

def itemsDepth : List Json → Nat
  | [] => 0
  | v :: vs => max (depth v) (itemsDepth vs)

def membersDepth : List (Option String × Json) → Nat
  | [] => 0
  | (_, v) :: ms => max (depth v) (membersDepth ms)

end

mutual

/-- Whether every text has characters and every number is a word or a double. -/
def isPlain : Json → Bool
  | number n => n.word?.isSome || n.toDouble?.isSome
  | text s => s.isSome
  | array items => arePlain items
  | object ms => membersPlain ms
  | _ => true

def arePlain : List Json → Bool
  | [] => true
  | v :: vs => isPlain v && arePlain vs

def membersPlain : List (Option String × Json) → Bool
  | [] => true
  | (s, v) :: ms => s.isSome && isPlain v && membersPlain ms

end

/-- The greatest depth of a value that is kept until its tag is known. -/
def maxDepth : Nat := 127

/-- The tag of a tagged choice, and the rest of it. -/
def tagged? (tag : String) (v : Json) : Option (String × Json) := do
  guard (v.isPlain && v.depth ≤ maxDepth)
  match v with
  | array (name :: items) => pure (← name.string?, array items)
  | object ms =>
    match ms.filter (·.1 == some tag) with
    | [(_, name)] => pure (← name.string?, object (ms.filter (·.1 != some tag)))
    | _ => none
  | _ => none

/-- The rest of a tagged choice that has no fields: any members, but no items. -/
def isBare : Json → Bool
  | array [] => true
  | object _ => true
  | _ => false

end Pipeworks.Json
