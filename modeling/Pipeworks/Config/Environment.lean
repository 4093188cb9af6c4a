import Pipeworks.Config.Basic
import Pipeworks.Text.Blank
import Pipeworks.Text.Decimal
/-!
# Settings from the environment

Each setting may be given by a variable. Blanks around its value do not count. The variables are read
in a fixed order, and the first value that cannot be read is the error.
-/

namespace Pipeworks

namespace Settings

/-- What the names of all variables begin with. -/
def variablePrefix : String := "PHASEFLOW_"

/-- Reads one variable; one that is not there gives no setting. -/
def readVariable {α : Type} (lookup : String → Option String) (field : String)
    (read : String → Except String α) : Except ConfigError (Option α) :=
  match lookup (variablePrefix ++ field) with
  | none => .ok none
  | some value =>
    match read (Text.trim value) with
    | .ok a => .ok (some a)
    | .error reason => .error (.invalidValue field reason)

def readSwitch (s : String) : Except String Bool :=
  if s == "true" then .ok true
  else if s == "false" then .ok false
  else .error "provided string was not `true` or `false`"

def readLimit (s : String) : Except String Nat :=
  match Text.readLimit s.toList with
  | .ok n => .ok n
  | .error f => .error f.message

def ofLookup (lookup : String → Option String) : Except ConfigError Settings := do
  let shortCircuit ← readVariable lookup "SHORT_CIRCUIT" readSwitch
  let prePostAbort ← readVariable lookup "PRE_POST_ABORT" readSwitch
  let maxJumps ← readVariable lookup "MAX_JUMPS_PER_RUN" readLimit
  let poolMax ← readVariable lookup "POOL_MAX" readLimit
  let ingestBuffer ← readVariable lookup "INGEST_BUFFER" readLimit
  let logFormat ← readVariable lookup "LOG_FORMAT" LogFormat.ofText
  pure ⟨shortCircuit, prePostAbort, maxJumps, poolMax, ingestBuffer, logFormat⟩

end Settings

/-- The configuration that the environment describes, on a machine with a default size of pools. -/
def EngineConfig.ofLookup (poolMax : Nat) (lookup : String → Option String) :
    Except ConfigError EngineConfig := do
  (EngineConfig.ofSettings poolMax (← Settings.ofLookup lookup)).validate

end Pipeworks
