import Pipeworks.Config.Basic
import Pipeworks.Control
import Pipeworks.Testing.Recording
import Pipeworks.View.Error
/-!
# Views of runs

Readings of the clock are not shown. Counts of nanoseconds and milliseconds are shown as texts, and a
latency as the bits of its double.
-/

namespace Pipeworks

/-- A count that may be beyond the whole numbers of a double. -/
def Json.long (n : Nat) : Json := string (toString n)

/-- The bits of a double in sixteen hexadecimal digits. -/
def Json.bits (x : Float) : Json :=
  let digits := Nat.toDigits 16 x.toBits.toNat
  string (String.ofList (List.replicate (16 - digits.length) '0' ++ digits))

def Timing.view (t : Timing) : List Json :=
  [.string t.phase.name, .nat t.index, .string t.name, .bool t.success]

/-- A timing as a record, its time as a text. -/
def Timing.recordView (t : Timing) : Json :=
  .record [("phase", .string t.phase.name), ("index", .nat t.index), ("name", .string t.name),
    ("elapsed_nanos", .long t.elapsed), ("success", .bool t.success)]

def RunResult.view {C : Type} (f : C → Json) (r : RunResult C) : Json :=
  .record [("context", f r.context), ("short_circuited", .bool r.shortCircuited),
    ("is_success", .bool r.isSuccess), ("has_errors", .bool r.hasErrors),
    ("errors", .array (r.errors.map (·.view))), ("timings", .array (r.timings.map (.array ·.view)))]

def Control.view {C : Type} (c : Control C) : Json :=
  .record [("pipeline", .string c.pipeline), ("phase", .string c.phase.name), ("index", .nat c.index),
    ("step", .string c.step), ("short_circuited", .bool c.shortCircuited),
    ("errors", .array (c.errors.toList.map (·.view))),
    ("timings", .array (c.timings.toList.map fun t => .array (t.view ++ [.long t.elapsed]))),
    ("run_id_version", .nat c.run.version)]

namespace Event

/-- An event, with the identity of the run where it starts if `withRun` is set. -/
def view (withRun : Bool) (h : RunHeader) : Event → Json
  | pipelineStart label =>
    .record ([("event", .string "pipeline_start"), ("pipeline", .string h.pipeline),
      ("start_label", Json.orNull .string label)]
      ++ if withRun then [("run_id", .string h.run.text)] else [])
  | stepStart position label =>
    .record [("event", .string "step_start"), ("index", .nat position), ("label", .string label)]
  | stepEnd position label _ success =>
    .record [("event", .string "step_end"), ("index", .nat position), ("label", .string label),
      ("success", .bool success)]
  | stepError position label message =>
    .record [("event", .string "step_error"), ("index", .nat position), ("label", .string label),
      ("message", .string message)]
  | jump source target millis =>
    .record [("event", .string "jump"), ("from", .string source), ("to", .string target),
      ("delay_millis", .long millis)]
  | pipelineEnd success _ error =>
    .record [("event", .string "pipeline_end"), ("success", .bool success),
      ("error", Json.orNull .string error)]

def views (withRun : Bool) (l : List (RunHeader × Event)) : Json :=
  .array (l.map fun e => e.2.view withRun e.1)

end Event

namespace Report

/-- A report without its total latency, in the given form of the latencies. -/
def view (latencies : Keyed Float → Json) (r : Report) : Json :=
  .record [("name", .string r.name), ("pipeline", .string r.pipeline),
    ("shortCircuited", .bool r.shortCircuited), ("errorCount", .nat r.errorCount),
    ("actionLatencyMs", latencies r.actionLatencyMs)]

def latencyBits (l : Keyed Float) : Json := .record (l.entries.map fun e => (e.1, .bits e.2))

def latencySteps (l : Keyed Float) : Json := .array (l.keys.map .string)

end Report

namespace LogEntry

/-- What stands in place of a reading of the clock. -/
def hidden : String := "_"

/-- A text with the digits behind `elapsed_ns=` hidden. -/
def hideElapsed (s : String) : String :=
  let mark := "elapsed_ns="
  match s.splitOn mark with
  | [] => s
  | first :: rest =>
    first ++ String.join (rest.map fun r =>
      mark ++ hidden ++ String.ofList (r.toList.dropWhile Char.isDigit))

def lineView (l : LogLine) : Json :=
  .record ([("level", .string l.level.name), ("message", .string l.message)]
    ++ l.fields.map fun f => (f.1, .string f.2))

/-- A line as it is written. -/
def view : LogEntry → Json
  | line l => lineView l
  | report r =>
    .record [("level", .string LogLevel.info.name), ("message", .string "metrics"),
      ("pipeline", .string r.pipeline), ("report", r.view Report.latencySteps)]

/-- A line without the identity of its run and the readings of the clock. -/
def repeatableView : LogEntry → Json
  | line l =>
    lineView { l with
      fields := (l.fields.filter fun f => f.1 != "run_id" && f.1 != "elapsed_nanos").map fun f =>
        if f.1 == "detail" then (f.1, hideElapsed f.2) else f }
  | e => e.view

end LogEntry

/-- A configuration with its limits as texts. The size of pools is shown if it was given. -/
def EngineConfig.view (poolMaxGiven : Bool) (c : EngineConfig) : Json :=
  .record [("short_circuit_on_exception", .bool c.shortCircuitOnException),
    ("pre_post_abort", .bool c.prePostAbort), ("max_jumps_per_run", .long c.maxJumpsPerRun),
    ("pool_max", if poolMaxGiven then .long c.poolMax else .string "default"),
    ("ingest_buffer", .long c.ingestBuffer), ("log_format", .string c.logFormat.name)]

end Pipeworks
