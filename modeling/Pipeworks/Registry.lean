import Pipeworks.Keyed
import Pipeworks.Pipeline.Step
/-!
# Registries of actions

A registry maps keys to shared actions or to factories of instances, and makes steps of them.
-/

namespace Pipeworks

inductive Registration (ω ι C : Type) where
  | shared (action : Action ω C)
  | factory (factory : LocalFactory ω ι)

abbrev Registry (ω ι C : Type) := Keyed (Registration ω ι C)

namespace Registry
variable {ω ι C : Type}

/-- Registers something under a key; tells whether something else was there before. -/
def register (r : Registry ω ι C) (key : String) (x : Registration ω ι C) : Bool × Registry ω ι C :=
  (r.contains key, r.insert key x)

/-- A step for what is registered under a key. A shared action runs only as such. -/
def resolve (r : Registry ω ι C) (key : String) (lifecycle : Lifecycle) :
    Except ConfigError (StepSpec ω ι C) :=
  match r.get? key with
  | none => .error (.unknownAction key)
  | some (.factory f) => StepSpec.ofFactory lifecycle f
  | some (.shared a) =>
    match lifecycle with
    | .shared => .ok (.shared a)
    | other =>
      .error (.invalidValue "lifecycle"
        s!"'{key}' is a shared action and cannot run as {other.display}")

end Registry
end Pipeworks
