import Pipeworks.Phase
import Pipeworks.Error.Config
import Pipeworks.Error.Jump
/-!
# Errors of the engine
-/

namespace Pipeworks

/-- Everything that can end a call of the engine other than by an answer. -/
inductive EngineError where
  | configuration (e : ConfigError)
  | jump (e : JumpError)
  | action (e : ActionError)
  | interrupted (text : String)
  | queueFull (text : String)
  | engineStopped (text : String)
  | internal (text : String)
  | serialization (text : String)
  | io (text : String)
  deriving DecidableEq

namespace EngineError

def message : EngineError → String
  | configuration e => e.message
  | jump e => e.message
  | action e => e.display
  | interrupted t => "Interrupted: " ++ t
  | queueFull t => "Queue full: " ++ t
  | engineStopped t => "Engine stopped: " ++ t
  | internal t => "Internal error: " ++ t
  | serialization t => "Serialization error: " ++ t
  | io t => "IO error: " ++ t

/-- Only a failure of an action may be recorded and passed over. -/
def isFatal : EngineError → Bool
  | action _ => false
  | _ => true

end EngineError

/-- A failure of an action with the place where it happened. -/
structure RecordedError where
  pipeline : String
  phase : Phase
  index : Nat
  step : String
  cause : ActionError
  deriving DecidableEq

def RecordedError.display (e : RecordedError) : String :=
  s!"[{e.pipeline}] {e.step} ({e.phase.name}#{e.index}): {e.cause.display}"

end Pipeworks
