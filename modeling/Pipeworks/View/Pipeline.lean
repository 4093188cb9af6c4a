import Pipeworks.Ingest
import Pipeworks.Json.Basic
import Pipeworks.Pipeline.Provider
/-!
# Views of pipelines and pools
-/

namespace Pipeworks
variable {ω ι C : Type}

def BoundStep.view (s : BoundStep ω ι C) : Json :=
  .record [("phase", .string s.phase.name), ("index", .nat s.index), ("label", Json.orNull .string s.label),
    ("name", .string s.name), ("display_label", .string s.displayLabel),
    ("style", .string s.action.style.name),
    ("expected_input", Json.orNull (fun m : Marker C => .string m.typeName) s.expectedInput)]

def ErrorPolicy.view (p : ErrorPolicy) : Json :=
  .array [.bool p.shortCircuitOnException, .bool p.prePostAbort]

def Definition.view (d : Definition ω ι C) : Json :=
  .record [("name", .string d.name), ("len", .nat d.size), ("is_empty", .bool d.isEmpty),
    ("has_handler", .bool d.handler.isSome), ("policy", d.policy.view),
    ("counts", .array [.nat d.steps.pre.length, .nat d.steps.main.length, .nat d.steps.post.length]),
    ("steps", .array (d.steps.flat.map (·.view)))]

def Pipeline.view (p : Pipeline ω ι C) : Json :=
  .record [("name", .string p.name), ("len", .nat p.size), ("is_empty", .bool p.isEmpty),
    ("is_sealed", .bool p.isSealed), ("jumps_enabled", .bool p.jumpsEnabled)]

def Plan.boundaryView (p : Plan ω ι C) : Json :=
  .record [("pre_boundary", .nat p.preBoundary), ("post_boundary", .nat p.postBoundary),
    ("len", .nat p.size), ("is_empty", .bool (p.size == 0)), ("name", .string p.name)]

def Pool.view {α : Type} (p : Pool α) : Json :=
  .record [("name", .string p.name), ("max", .nat p.max), ("created", .nat p.created),
    ("available", .nat p.available), ("closed", .bool p.closed), ("debug", .string p.describe)]

namespace Ingest

def view (g : Ingest ω ι C) : Json :=
  .record [("name", .string g.name), ("is_running", .bool g.isRunning)]

def statsView (g : Ingest ω ι C) : Json :=
  .record [("processed", .nat g.stats.processed), ("failed", .nat g.stats.failed),
    ("rejected", .nat g.stats.rejected)]

end Ingest
end Pipeworks
