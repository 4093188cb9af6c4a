import Pipeworks.Error.Config
import Pipeworks.Duration
/-!
# Engine settings

A document of settings gives some of them; the rest have defaults. The limits must not be zero.
-/

namespace Pipeworks

inductive LogFormat where
  | text
  | json
  deriving DecidableEq

namespace LogFormat

instance : Inhabited LogFormat := ⟨text⟩

def name : LogFormat → String
  | text => "text"
  | json => "json"

/-- Reads a format in any case of its ASCII letters; the text in lower case is the fault. -/
def ofText (s : String) : Except String LogFormat :=
  let s := String.ofList (s.toList.map Char.toLower)
  if s == "text" || s == "pretty" then .ok text
  else if s == "json" then .ok json
  else .error s!"unknown log format '{s}'"

end LogFormat

structure EngineConfig where
  shortCircuitOnException : Bool
  prePostAbort : Bool
  maxJumpsPerRun : Nat
  poolMax : Nat
  ingestBuffer : Nat
  logFormat : LogFormat
  deriving DecidableEq

/-- The settings that a document gives. -/
structure Settings where
  shortCircuitOnException : Option Bool
  prePostAbort : Option Bool
  maxJumpsPerRun : Option Nat
  poolMax : Option Nat
  ingestBuffer : Option Nat
  logFormat : Option LogFormat
  deriving DecidableEq

/-- The number of jumps that a run may make if nothing else is said. -/
def defaultMaxJumps : Nat := 128

namespace EngineConfig

/-- The defaults on a machine whose pools are of a given size. -/
def default (poolMax : Nat) : EngineConfig := ⟨true, false, defaultMaxJumps, poolMax, 1024, .text⟩

/-- Settings over the defaults. -/
def ofSettings (poolMax : Nat) (s : Settings) : EngineConfig :=
  let d := default poolMax
  { shortCircuitOnException := s.shortCircuitOnException.getD d.shortCircuitOnException
    prePostAbort := s.prePostAbort.getD d.prePostAbort
    maxJumpsPerRun := s.maxJumpsPerRun.getD d.maxJumpsPerRun
    poolMax := s.poolMax.getD d.poolMax
    ingestBuffer := s.ingestBuffer.getD d.ingestBuffer
    logFormat := s.logFormat.getD d.logFormat }

/-- The configuration if its limits are not zero, or the error for the first that is. -/
def validate (c : EngineConfig) : Except ConfigError EngineConfig :=
  if c.maxJumpsPerRun = 0 then .error (atLeastOne "max_jumps_per_run")
  else if c.poolMax = 0 then .error (atLeastOne "pool_max")
  else if c.ingestBuffer = 0 then .error (atLeastOne "ingest_buffer")
  else .ok c
where
  atLeastOne (field : String) : ConfigError := .invalidValue field "must be at least 1"

end EngineConfig
end Pipeworks
