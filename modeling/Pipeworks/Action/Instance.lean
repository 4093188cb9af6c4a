import Pipeworks.Action.Basic
/-!
# Instances of actions

An instance is an action with a state of its own, used by one run at a time. Instances are made by
factories; one that supports it can be reset for the next use.
-/

namespace Pipeworks

/-- What becomes of a construction that runs code of the user. -/
inductive Made (ε α : Type) where
  | made (a : α)
  | refused (e : ε)
  | panicked (text : String)

def Made.mapError {ε ε' α : Type} (f : ε → ε') : Made ε α → Made ε' α
  | made a => made a
  | refused e => refused (f e)
  | panicked t => panicked t

def Made.map {ε α β : Type} (f : α → β) : Made ε α → Made ε β
  | made a => made (f a)
  | refused e => refused e
  | panicked t => panicked t

/-- What becomes of a reset. -/
inductive ResetOutcome where
  | done
  | failed (e : ActionError)
  | panicked (text : String)

/-- How instances of type `ι` act on contexts `C` in a world `ω`. The state that an application or
a reset leaves behind stays whatever the outcome is. -/
class LocalAction (ω ι C : Type) where
  /-- The name of the type of the contexts. -/
  contextType : String
  apply : ι → C → Control C → ω → Applied ω C × ι
  reset : ι → ω → ResetOutcome × ι × ω
  supportsReset : ι → Bool
  typeName : ι → String
  style : ι → InvokeStyle

/-- A factory of instances. -/
abbrev LocalFactory (ω ι : Type) := ω → Made ActionError ι × ω

/-- No instances at all, for pipelines of shared actions. -/
instance (ω C : Type) : LocalAction ω Empty C where
  contextType := ""
  apply i := i.elim
  reset i := i.elim
  supportsReset i := i.elim
  typeName i := i.elim
  style i := i.elim

end Pipeworks
