import Pipeworks.Action.Basic
import Pipeworks.Cell
/-!
# Actions for tests

Each of them counts its calls, or keeps what it has seen, in a cell of the world.
-/

namespace Pipeworks.Testing
variable {ω C : Type}

/-- Passes the context on. -/
def counting (calls : Cell ω Nat) : Action ω C := .unary fun ctx w => (.next ctx, calls.modify (· + 1) w)

/-- Fails every time. -/
def failing (message : String) (calls : Cell ω Nat) : Action ω C :=
  .controlled fun _ _ w => ⟨.fault (.failed (.new message)), .none, calls.modify (· + 1) w⟩

/-- More calls than there can be. -/
def forever : Nat := maxWord

/-- Jumps to a label on its first calls, and passes the context on after them. -/
def jumping (target : String) (times : Nat) (delay : Nanos) (calls : Cell ω Nat) : Action ω C :=
  .controlled fun ctx _ w =>
    let outcome := if calls.get w < times then .fault (.jump (.after target delay)) else .next ctx
    ⟨outcome, .none, calls.modify (· + 1) w⟩

/-- The actions that count their calls, as data. -/
inductive Counted where
  | counting
  | failing (message : String)
  | jumping (target : String) (times : Nat) (delay : Nanos)

def Counted.action (calls : Cell ω Nat) : Counted → Action ω C
  | counting => Testing.counting calls
  | failing message => Testing.failing message calls
  | jumping target times delay => Testing.jumping target times delay calls

/-- Keeps the contexts it sees, and passes them on. -/
def collecting (seen : Cell ω (Trail C)) : Action ω C := .unary fun ctx w => (.next ctx, seen.append ctx w)

/-- Holds back the contexts that a test picks, and passes the others on. -/
def gate (holds : C → Bool) : Action ω C :=
  .unary fun ctx w => (if holds ctx then .blocked else .next ctx, w)

end Pipeworks.Testing
