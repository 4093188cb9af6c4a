import Pipeworks.Json.Choices
import Pipeworks.Metrics.Report
/-!
# Records as values
-/

namespace Pipeworks

namespace CacheKey

def toJson (k : CacheKey) : Json :=
  .record [("pipeline", .string k.pipeline), ("phase", k.phase.toJson), ("index", .nat k.index),
    ("name", Json.orNull .string k.name)]

def ofJson? (v : Json) : Option CacheKey := do
  let r ← v.fields? ["pipeline", "phase", "index", "name"]
  pure {
    pipeline := ← r.required "pipeline" Json.string?
    phase := ← r.required "phase" Phase.ofJson?
    index := ← r.required "index" Json.nat?
    name := ← r.nullable "name" Json.string? }

end CacheKey

namespace Timing

def toJson (t : Timing) : Json :=
  .record [("phase", t.phase.toJson), ("index", .nat t.index), ("name", .string t.name),
    ("elapsed_nanos", .nat t.elapsed), ("success", .bool t.success)]

def ofJson? (v : Json) : Option Timing := do
  let r ← v.fields? ["phase", "index", "name", "elapsed_nanos", "success"]
  pure {
    phase := ← r.required "phase" Phase.ofJson?
    index := ← r.required "index" Json.nat?
    name := ← r.required "name" Json.string?
    elapsed := ← r.required "elapsed_nanos" Json.nat?
    success := ← r.required "success" Json.bool? }

end Timing

/-- The table of an object. Of two members with one name the later one stays. -/
def Keyed.ofJson? {α : Type} (f : Json → Option α) (v : Json) : Option (Keyed α) := do
  let members ← (← v.members?).mapM fun m => (f m.2).map (m.1, ·)
  pure (.ofList members)

namespace ErrorInfo

def toJson (i : ErrorInfo) : Json :=
  .record [("code", .string i.code), ("summary", .string i.summary),
    ("fix_hint", Json.orNull .string i.fixHint),
    ("context", .record (i.context.entries.map fun e => (e.1, .string e.2)))]

def ofJson? (v : Json) : Option ErrorInfo := do
  let r ← v.fields? ["code", "summary", "fix_hint", "context"]
  let context ← r.optional "context" (Keyed.ofJson? Json.string?)
  pure {
    code := ← r.required "code" Json.string?
    summary := ← r.required "summary" Json.string?
    fixHint := ← r.nullable "fix_hint" Json.string?
    context := context.getD ∅ }

/-- The details as they are shown: what is missing or empty is left out. -/
def toDetails (i : ErrorInfo) : Json :=
  .record ([("code", .string i.code), ("summary", .string i.summary)]
    ++ i.fixHint.toList.map (fun h => ("fix_hint", .string h))
    ++ if i.context.isEmpty then []
       else [("context", .record (i.context.entries.map fun e => (e.1, .string e.2)))])

end ErrorInfo

/-- The place of a recorded error and its cause, as they are shown. -/
def RecordedError.toDetails (e : RecordedError) : Json :=
  .record [("pipeline", .string e.pipeline), ("phase", .string e.phase.name), ("index", .nat e.index),
    ("step", .string e.step), ("cause", .string e.cause.display)]

def Report.ofJson? (v : Json) : Option Report := do
  let r ← v.fields? ["name", "pipeline", "shortCircuited", "errorCount", "pipelineLatencyMs",
    "actionLatencyMs"]
  pure {
    name := ← r.required "name" Json.string?
    pipeline := ← r.required "pipeline" Json.string?
    shortCircuited := ← r.required "shortCircuited" Json.bool?
    errorCount := ← r.required "errorCount" Json.nat?
    pipelineLatencyMs := ← r.required "pipelineLatencyMs" Json.int?
    actionLatencyMs := ← r.required "actionLatencyMs" (Keyed.ofJson? Json.double?) }

end Pipeworks
