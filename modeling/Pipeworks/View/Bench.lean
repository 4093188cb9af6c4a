import Pipeworks.Pipeline.Session
import Pipeworks.Script.Instance
import Pipeworks.View.Run
/-!
# Views of sessions and counts
-/

namespace Pipeworks

def Session.view {ω ι : Type} [Host ω] (z : Session ω ι String) (w : ω) : Json :=
  .record [("name", .string z.name), ("value", .string z.value), ("is_ended", .bool z.ended),
    ("recorded", .array (Phase.all.map fun p => .nat (z.recordedCount p))),
    ("result", (z.result w).view .string)]

def InstanceStats.view (s : InstanceStats) : Json :=
  .record [("builds", .nat s.builds), ("created", .nat s.created), ("resets", .nat s.resets),
    ("applies", .nat s.applies)]

/-- The counts of probes. Where a bound is given, the numbers that depend on the order of concurrent runs
are shown as being within it or not. -/
def ProbeStats.view (bound : Option Nat) (s : ProbeStats) : Json :=
  .record ([("resets", .nat s.resets), ("applies", .nat s.applies), ("violations", .nat s.violations)]
    ++ match bound with
      | none => [("created", .nat s.created), ("peak_active", .nat s.peakActive)]
      | some b =>
        [("created_in_bound", .bool (s.created ≤ b)), ("peak_in_bound", .bool (s.peakActive ≤ b))])

end Pipeworks
