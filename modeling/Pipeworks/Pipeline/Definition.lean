import Pipeworks.Pipeline.Step
/-!
# Definitions

A definition is a pipeline whose steps are bound: the actions, names and policies of its runs are
fixed.
-/

namespace Pipeworks

/-- What a failure does to the run, and what a failure or a short-circuit does to pre and post. -/
structure ErrorPolicy where
  shortCircuitOnException : Bool
  prePostAbort : Bool
  deriving DecidableEq

instance : Inhabited ErrorPolicy := ⟨true, false⟩

structure Definition (ω ι C : Type) where
  name : String
  policy : ErrorPolicy
  handler : Option (ErrorHandler C)
  steps : ByPhase (List (BoundStep ω ι C))

namespace Definition
variable {ω ι C : Type}

def size (d : Definition ω ι C) : Nat :=
  d.steps.pre.length + d.steps.main.length + d.steps.post.length

def isEmpty (d : Definition ω ι C) : Bool := d.size == 0

/-- Where the steps of a definition are bound. -/
structure Site where
  pipeline : String
  cache : Option CacheId
  defaultPoolMax : Option Nat

def Site.at (site : Site) (phase : Phase) (index : Nat) (label : Option String) : BindSite :=
  ⟨site.pipeline, phase, index, label, site.cache, site.defaultPoolMax⟩

variable [Host ω] [LocalAction ω ι C]

/-- Binds one step at its place. -/
def bindStep (site : Site) (phase : Phase) (index : Nat) (spec : StepSpec ω ι C) (s : Store ω ι) :
    Except (Halt ConfigError) (BoundStep ω ι C) × Store ω ι :=
  match spec.manager.bind (site.at phase index spec.label) s with
  | (.error e, s) => (.error e, s)
  | (.ok action, s) =>
    (.ok { phase := phase, index := index, label := spec.label
           name := phase.stepName index spec.label, action := action
           expectedInput := spec.expectedInput }, s)

/-- Binds the steps of a phase from `index` on. `taken` holds the labels of the steps before them; a
label that is taken is refused before its step is bound. -/
def bindPhase (site : Site) (phase : Phase) (index : Nat) (taken : List String) :
    List (StepSpec ω ι C) → Store ω ι →
    Except (Halt ConfigError) (List (BoundStep ω ι C) × List String) × Store ω ι
  | [], s => (.ok ([], taken), s)
  | spec :: specs, s =>
    match spec.label.filter taken.contains with
    | some label => (.error (.error (.duplicateLabel site.pipeline label)), s)
    | none =>
      match bindStep site phase index spec s with
      | (.error e, s) => (.error e, s)
      | (.ok step, s) =>
        match bindPhase site phase (index + 1) (spec.label.toList ++ taken) specs s with
        | (.error e, s) => (.error e, s)
        | (.ok (steps, taken), s) => (.ok (step :: steps, taken), s)

/-- Binds all steps, phase by phase. The first error ends the work; what was done to the store before
it stays. -/
def bind (site : Site) (policy : ErrorPolicy) (handler : Option (ErrorHandler C))
    (specs : ByPhase (List (StepSpec ω ι C))) (s : Store ω ι) :
    Except (Halt ConfigError) (Definition ω ι C) × Store ω ι :=
  match bindPhase site .pre 0 [] specs.pre s with
  | (.error e, s) => (.error e, s)
  | (.ok (pre, taken), s) =>
    match bindPhase site .main 0 taken specs.main s with
    | (.error e, s) => (.error e, s)
    | (.ok (main, taken), s) =>
      match bindPhase site .post 0 taken specs.post s with
      | (.error e, s) => (.error e, s)
      | (.ok (post, _), s) => (.ok ⟨site.pipeline, policy, handler, ⟨pre, main, post⟩⟩, s)

end Definition
end Pipeworks
