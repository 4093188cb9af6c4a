import Pipeworks.Marker
import Pipeworks.Lifecycle.Manager
/-!
# Steps

A step is declared by its manager, perhaps with a label and with a marker of the input it expects.
Bound to its place it also has an index and a name.
-/

namespace Pipeworks

structure StepSpec (ω ι C : Type) where
  manager : Manager ω ι C
  label : Option String
  expectedInput : Option (Marker C)

namespace StepSpec
variable {ω ι C : Type}

def ofManager (m : Manager ω ι C) : StepSpec ω ι C := ⟨m, none, none⟩

def shared (a : Action ω C) : StepSpec ω ι C := .ofManager (.shared a)

def perRun (f : LocalFactory ω ι) : StepSpec ω ι C := .ofManager (.perRun f)

def pooled (f : LocalFactory ω ι) (max : Option Nat) : StepSpec ω ι C := .ofManager (.pooled f max)

/-- A step of instances under a given lifecycle. -/
def ofFactory (l : Lifecycle) (f : LocalFactory ω ι) : Except ConfigError (StepSpec ω ι C) :=
  (Manager.ofFactory l f).map .ofManager

def withLabel (s : StepSpec ω ι C) (label : String) : StepSpec ω ι C := { s with label := some label }

def withExpectedInput (s : StepSpec ω ι C) (m : Marker C) : StepSpec ω ι C :=
  { s with expectedInput := some m }

def lifecycle (s : StepSpec ω ι C) : Lifecycle := s.manager.lifecycle

end StepSpec

structure BoundStep (ω ι C : Type) where
  phase : Phase
  index : Nat
  label : Option String
  name : String
  action : BoundAction ω ι C
  expectedInput : Option (Marker C)

/-- The label of a step, or its name if it has none. -/
def BoundStep.displayLabel {ω ι C : Type} (s : BoundStep ω ι C) : String := s.label.getD s.name

end Pipeworks
