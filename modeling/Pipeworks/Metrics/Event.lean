import Pipeworks.Duration
import Pipeworks.RunId
/-!
# Events of a run

What a run reports about itself while it goes on, and the sinks it reports to.
-/

namespace Pipeworks

/-- The run that an event is about. -/
structure RunHeader where
  pipeline : String
  run : RunId
  deriving DecidableEq

inductive Event where
  | pipelineStart (startLabel : Option String)
  | stepStart (position : Nat) (label : String)
  | stepEnd (position : Nat) (label : String) (elapsed : Nanos) (success : Bool)
  | stepError (position : Nat) (label message : String)
  | jump (source target : String) (delayMillis : Nat)
  | pipelineEnd (success : Bool) (elapsed : Nanos) (error : Option String)
  deriving DecidableEq

def Event.isJump : Event → Bool
  | jump .. => true
  | _ => false

/-- Takes the events of runs into the world. -/
abbrev Sink (ω : Type) := RunHeader → Event → ω → ω

/-- Drops every event. -/
def Sink.silent {ω : Type} : Sink ω := fun _ _ w => w

end Pipeworks
