/-!
# Lifecycles of instances
-/

namespace Pipeworks

/-- Which instance of an action serves a run: one for all runs, a new one, or one from a pool. -/
inductive Lifecycle where
  | shared
  | perRun
  | pooled (max : Option Nat)
  deriving DecidableEq

namespace Lifecycle

instance : Inhabited Lifecycle := ⟨shared⟩

def display : Lifecycle → String
  | shared => "shared"
  | perRun => "per_run"
  | pooled (some max) => s!"pooled({max})"
  | pooled none => "pooled"

end Lifecycle
end Pipeworks
