import Pipeworks.Cell
import Pipeworks.Pipeline.Typed
import Pipeworks.Script.Basic
/-!
# Functions on values

Values are integers of 64 bits, texts and lists of texts. A function on them is written as data; one
whose value is not of the type that is due panics.
-/

namespace Pipeworks

inductive DataType where
  | int
  | str
  | list
  deriving DecidableEq

namespace DataType

def Value : DataType → Type
  | int => Int
  | str => String
  | list => List String

def name : DataType → String
  | int => "i64"
  | str => "alloc::string::String"
  | list => "alloc::vec::Vec<alloc::string::String>"

instance : ValueTypes DataType := ⟨Value, name⟩

end DataType

abbrev Datum := Typed DataType

namespace Datum

def int (n : Int) : Datum := ⟨.int, n⟩

def str (s : String) : Datum := ⟨.str, s⟩

def list (l : List String) : Datum := ⟨.list, l⟩

def int? : Datum → Option Int
  | ⟨.int, n⟩ => some n
  | _ => none

def str? : Datum → Option String
  | ⟨.str, s⟩ => some s
  | _ => none

def list? : Datum → Option (List String)
  | ⟨.list, l⟩ => some l
  | _ => none

end Datum

/-- A function on values. -/
inductive DataFunction where
  | id
  | const (v : Datum)
  | add (n : Int)
  /-- The decimal text of an integer. -/
  | decimal
  /-- The length of a text or of a list. -/
  | length
  | append (text : String)
  | split (sep : String)
  | join (sep : String)
  | push (text : String)
  | fail (message : String)
  | jump (s : JumpSignal)
  | abort (e : EngineError)
  | ifLess (n : Int) (yes no : DataFunction)
  | byCall (functions : List DataFunction)
  | seq (functions : List DataFunction)
  | shortCircuit

namespace DataFunction

/-- Wraps an integer to 64 bits. -/
def wrap (n : Int) : Int := n.bmod (maxWord + 1)

/-- The parts of a text between separators. An empty separator stands before and behind each
character. -/
def splitText (sep s : String) : List String :=
  if sep.isEmpty then "" :: s.toList.map String.singleton ++ [""] else s.splitOn sep

/-- How a function ends without a value. -/
inductive Stop where
  | fault (f : Fault)
  | wrongType

/-- The value made of one that must be of a certain type. -/
def use {α : Type} (v : Option α) (f : α → Datum) : Except Stop Datum :=
  match v with
  | some a => .ok (f a)
  | none => .error .wrongType

/-- The value of a function that has no functions inside. -/
def simple (d : Datum) : DataFunction → Except Stop Datum
  | .id => .ok d
  | .const v => .ok v
  | .add n => use d.int? fun i => .int (wrap (i + n))
  | .decimal => use d.int? fun i => .str (toString i)
  | .length => use (d.str?.map String.length <|> d.list?.map List.length) fun n => .int n
  | .append t => use d.str? fun s => .str (s ++ t)
  | .split sep => use d.str? fun s => .list (splitText sep s)
  | .join sep => use d.list? fun l => .str (sep.intercalate l)
  | .push t => use d.list? fun l => .list (l ++ [t])
  | .fail m => .error (.fault (.failed (.new m)))
  | .jump s => .error (.fault (.jump s))
  | .abort e => .error (.fault (.abort e))
  | .shortCircuit | .ifLess .. | .byCall _ | .seq _ => .ok d

mutual

/-- The value of a function at the call number `call`, and whether the run was short-circuited. -/
def eval (call : Nat) (d : Datum) (short : Bool) : DataFunction → Except Stop Datum × Bool
  | .ifLess n yes no =>
    match d.int? with
    | none => (.error .wrongType, short)
    | some i => if i < n then eval call d short yes else eval call d short no
  | .byCall fs => evalTurn call call d short fs
  | .seq fs => evalAll call d short fs
  | .shortCircuit => (.ok d, true)
  | f => (simple d f, short)

def evalTurn (call k : Nat) (d : Datum) (short : Bool) : List DataFunction → Except Stop Datum × Bool
  | [] => (.ok d, short)
  | [f] => eval call d short f
  | f :: fs =>
    match k with
    | 0 => eval call d short f
    | k + 1 => evalTurn call k d short fs

def evalAll (call : Nat) (d : Datum) (short : Bool) : List DataFunction → Except Stop Datum × Bool
  | [] => (.ok d, short)
  | f :: fs =>
    match eval call d short f with
    | (.ok d, short) => evalAll call d short fs
    | r => r

end

/-- The step function between two types. Only a controlled one can short-circuit the run. -/
def typed {ω : Type} (f : DataFunction) (controlled : Bool) (calls : Cell ω Nat) (source target : DataType) :
    TypedFunction ω source target := fun v _ w =>
  let (r, short) := f.eval (calls.get w) ⟨source, v⟩ false
  let outcome : Outcome (ValueTypes.Value target) :=
    match r with
    | .ok d => (d.as? target).elim (.panicked "a value of another type") .next
    | .error (.fault f) => .fault f
    | .error .wrongType => .panicked "a value of another type"
  ⟨outcome, ⟨[], controlled && short⟩, calls.modify (· + 1) w⟩

end DataFunction
end Pipeworks
