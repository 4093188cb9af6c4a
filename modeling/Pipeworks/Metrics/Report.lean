import Pipeworks.Action.Basic
import Pipeworks.Keyed
/-!
# Reports

A summary of a run as one of its steps sees it. Latencies are listed by step name; of two timings
under one name the later one is shown.
-/

namespace Pipeworks

structure Report where
  name : String
  pipeline : String
  shortCircuited : Bool
  errorCount : Nat
  pipelineLatencyMs : Int
  actionLatencyMs : Keyed Float

namespace Report
variable {ω C : Type}

/-- A time, which is a word of 64 bits, as milliseconds with a fraction. -/
def milliseconds (t : Nanos) : Float := t.toUInt64.toFloat / 1000000.0

def latencies (timings : List Timing) : Keyed Float :=
  .ofList (timings.map fun t => (t.name, milliseconds t.elapsed))

def ofControl (name : String) (c : Control C) (now : Nanos) : Report :=
  { name := name, pipeline := c.pipeline, shortCircuited := c.shortCircuited
    errorCount := c.errors.size
    pipelineLatencyMs := (now / 1000000 : Nat) - (c.startedAt / 1000000 : Nat)
    actionLatencyMs := latencies c.timings.toList }

/-- An action that hands a report to `consume` and passes the context on. -/
def action [Host ω] (name : String) (consume : Report → ω → ω) : Action ω C :=
  .controlled fun ctx control w => ⟨.next ctx, .none, consume (ofControl name control (Host.now w)) w⟩

end Report
end Pipeworks
