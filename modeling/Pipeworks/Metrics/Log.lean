import Pipeworks.Metrics.Event
import Pipeworks.Text.Decimal
/-!
# Events as log lines
-/

namespace Pipeworks

inductive LogLevel where
  | trace
  | debug
  | info
  | warn
  | error
  deriving DecidableEq

namespace LogLevel

def name : LogLevel → String
  | trace => "TRACE"
  | debug => "DEBUG"
  | info => "INFO"
  | warn => "WARN"
  | error => "ERROR"

/-- The levels, the gravest first. -/
def all : List LogLevel := [error, warn, info, debug, trace]

/-- Reads a level: its name in either case of letters, or its place among the levels, counted from 1. -/
def ofText? (s : String) : Option LogLevel :=
  match Text.readLimit s.toList with
  | .ok place => if place = 0 then none else all[place - 1]?
  | .error _ => all.find? (·.name.toList == s.toList.map Char.toUpper)

/-- The level of the lines of a sink set to a level: lines are for debugging or for information. -/
def ofSink : LogLevel → LogLevel
  | debug => debug
  | _ => info

end LogLevel

/-- A line of a log: its fields as texts, in the order they are given. -/
structure LogLine where
  level : LogLevel
  message : String
  fields : List (String × String)
  deriving DecidableEq

namespace LogLine

def ofDetail (level : LogLevel) (h : RunHeader) (event detail : String) : LogLine :=
  ⟨level.ofSink, event,
    [("event", event), ("pipeline", h.pipeline), ("run_id", h.run.text), ("detail", detail)]⟩

/-- The line for an event in a log set to `level`. Errors are warnings at every level. -/
def ofEvent (level : LogLevel) (h : RunHeader) : Event → LogLine
  | .pipelineStart label => ofDetail level h "pipeline.start" (label.getD "")
  | .stepStart position label => ofDetail level h "step.start" s!"{position}:{label}"
  | .stepEnd position label elapsed success =>
    ofDetail level h "step.end" s!"{position}:{label} elapsed_ns={saturate elapsed} success={success}"
  | .stepError position label message =>
    ⟨.warn, "step.error",
      [("event", "step.error"), ("pipeline", h.pipeline), ("run_id", h.run.text),
       ("index", toString position), ("label", label), ("error", message)]⟩
  | .jump source target millis =>
    ofDetail level h "step.jump" s!"{source} -> {target} delay_ms={millis}"
  | .pipelineEnd success elapsed (some error) =>
    ⟨.warn, "pipeline.end",
      [("event", "pipeline.end"), ("pipeline", h.pipeline), ("run_id", h.run.text),
       ("success", toString success), ("elapsed_nanos", toString (saturate elapsed)),
       ("error", error)]⟩
  | .pipelineEnd success elapsed none =>
    ofDetail level h "pipeline.end" s!"success={success} elapsed_ns={saturate elapsed}"

end LogLine
end Pipeworks
