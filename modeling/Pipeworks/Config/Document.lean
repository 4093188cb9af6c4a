import Pipeworks.Error.Basic
import Pipeworks.Json.Choices
import Pipeworks.Json.Reader
/-!
# Settings from a document

A document is a JSON record that gives some of the settings. It comes as a text or as the bytes of a
file, which must be UTF-8.
-/

namespace Pipeworks

namespace Settings

def ofJson? (v : Json) : Option Settings := do
  let r ← v.fields? ["short_circuit_on_exception", "pre_post_abort", "max_jumps_per_run", "pool_max",
    "ingest_buffer", "log_format"]
  pure {
    shortCircuitOnException := ← r.optional "short_circuit_on_exception" Json.bool?
    prePostAbort := ← r.optional "pre_post_abort" Json.bool?
    maxJumpsPerRun := ← r.optional "max_jumps_per_run" Json.nat?
    poolMax := ← r.optional "pool_max" Json.nat?
    ingestBuffer := ← r.optional "ingest_buffer" Json.nat?
    logFormat := ← r.optional "log_format" LogFormat.ofJson? }

def ofText (s : String) : Except EngineError Settings :=
  match (Json.ofText? s).bind ofJson? with
  | some settings => .ok settings
  | none => .error (.serialization "not a document of settings")

/-- Settings from the bytes of a file, or from none if the file cannot be read. -/
def ofFile (bytes : Option ByteArray) : Except EngineError Settings :=
  match bytes with
  | none => .error (.io "the file cannot be read")
  | some b =>
    match String.fromUTF8? b with
    | none => .error (.io "the file is not UTF-8")
    | some s => ofText s

end Settings

namespace EngineConfig

def toJson (c : EngineConfig) : Json :=
  .record [("short_circuit_on_exception", .bool c.shortCircuitOnException),
    ("pre_post_abort", .bool c.prePostAbort), ("max_jumps_per_run", .nat c.maxJumpsPerRun),
    ("pool_max", .nat c.poolMax), ("ingest_buffer", .nat c.ingestBuffer),
    ("log_format", c.logFormat.toJson)]

/-- Settings over the defaults of a machine, if their limits are not zero. -/
def ofDocument (poolMax : Nat) (s : Settings) : Except EngineError EngineConfig :=
  match (ofSettings poolMax s).validate with
  | .ok c => .ok c
  | .error e => .error (.configuration e)

/-- The configuration of a text: its settings over the defaults of a machine. -/
def ofText (poolMax : Nat) (s : String) : Except EngineError EngineConfig := Settings.ofText s >>= ofDocument poolMax

end EngineConfig
end Pipeworks
