import Pipeworks.Duration
import Pipeworks.Error.Basic
/-!
# Faults

A step that does not answer with a context answers with a fault: a failure, which may be recorded
and passed over, a request to continue at a label, or an error that ends the run.
-/

namespace Pipeworks

/-- A request to continue at a label, after a delay. -/
structure JumpSignal where
  label : String
  delay : Nanos
  deriving DecidableEq

namespace JumpSignal

def now (label : String) : JumpSignal := ⟨label, 0⟩

def after (label : String) (delay : Nanos) : JumpSignal := ⟨label, delay⟩

def delayMillis (s : JumpSignal) : Nat := Nanos.millis s.delay

end JumpSignal

inductive Fault where
  | failed (e : ActionError)
  | jump (s : JumpSignal)
  | abort (e : EngineError)
  deriving DecidableEq

namespace Fault

/-- The failure to record for a fault where jumps are not followed; an abort stays an error. -/
def asActionError : Fault → Except EngineError ActionError
  | failed e => .ok e
  | jump s => .ok (.new s!"Jump to '{s.label}' requested but jumps are not enabled")
  | abort e => .error e

def display : Fault → String
  | failed e => e.display
  | jump s => s!"jump to '{s.label}'"
  | abort e => e.message

/-- A failure of an action stays a failure; any other error ends the run. -/
def ofEngineError : EngineError → Fault
  | .action e => failed e
  | e => abort e

def ofJumpError (e : JumpError) : Fault := abort (.jump e)

end Fault
end Pipeworks
