import Pipeworks.Pipeline.Builder
/-!
# Typed pipelines

A typed pipeline goes from values of one type to values of another. Its contexts are values with their
types, and each step has a type for its input: pre keeps the type of the input, main may change the
type, post keeps the type of the output. Every step is labelled and marked with the type it expects, so
that a jump to it is checked.
-/

namespace Pipeworks

/-- A collection of types that contexts may have, each with a name. -/
class ValueTypes (τ : Type) where
  Value : τ → Type
  name : τ → String

/-- A value together with its type. -/
structure Typed (τ : Type) [ValueTypes τ] where
  type : τ
  value : ValueTypes.Value type

namespace Typed
variable {τ : Type} [ValueTypes τ] [DecidableEq τ]

/-- The value if it is of a type. -/
def as? (t : τ) (d : Typed τ) : Option (ValueTypes.Value t) :=
  if h : d.type = t then some (h ▸ d.value) else none

/-- The marker of a type. -/
def marker (t : τ) : Marker (Typed τ) := ⟨ValueTypes.name t, fun d => decide (d.type = t)⟩

@[simp] theorem as?_mk (t : τ) (v : ValueTypes.Value t) : as? t ⟨t, v⟩ = some v := by simp [as?]

end Typed

namespace Outcome

def map {C D : Type} (f : C → D) : Outcome C → Outcome D
  | answered (.ok c) => answered (.ok (f c))
  | answered (.error e) => answered (.error e)
  | panicked t => panicked t
  | blocked => blocked

end Outcome

/-- A function that takes values of one type to values of another, with a view of the control. -/
abbrev TypedFunction (ω : Type) {τ : Type} [ValueTypes τ] (source target : τ) :=
  ValueTypes.Value source → Control (Typed τ) → ω → Applied ω (ValueTypes.Value target)

namespace TypedFunction
variable {ω τ : Type} [ValueTypes τ] [DecidableEq τ]

/-- The action of a function: a value of another type is a failure. -/
def action {source target : τ} (f : TypedFunction ω source target) : Action ω (Typed τ) :=
  .controlled fun d control w =>
    match d.as? source with
    | none => ⟨.fault (.failed (.new s!"expected input of type {ValueTypes.name source}")), .none, w⟩
    | some v =>
      let a := f v control w
      ⟨a.outcome.map (⟨target, ·⟩), a.marks, a.world⟩

end TypedFunction

/-- A pipeline from one type to another, and the phase it was extended in last. -/
structure TypedPipeline (ω ι : Type) {τ : Type} [ValueTypes τ] (input output : τ) where
  pipeline : Pipeline ω ι (Typed τ)
  phase : Phase

namespace TypedPipeline
variable {ω ι τ : Type} [ValueTypes τ] [DecidableEq τ] {input output : τ}

def spec {source target : τ} (label : String) (f : TypedFunction ω source target) :
    StepSpec ω ι (Typed τ) :=
  ((StepSpec.shared f.action).withLabel label).withExpectedInput (Typed.marker source)

/-- A pipeline without steps. -/
def new [Host ω] (name : String) (t : τ) : TypedPipeline ω ι t t := ⟨.new name, .pre⟩

/-- Adds a step before main. -/
def pre {t : τ} (p : TypedPipeline ω ι t t) (label : String) (f : TypedFunction ω t t) :
    Except ConfigError (TypedPipeline ω ι t t) :=
  if p.phase = .pre then do
    pure { p with pipeline := ← p.pipeline.addStep .pre (spec label f) }
  else .error (.invalidValue "pre" "pre steps must precede main steps")

/-- Adds a step to main, which makes its target the type of the output. -/
def step {next : τ} (p : TypedPipeline ω ι input output) (label : String)
    (f : TypedFunction ω output next) : Except ConfigError (TypedPipeline ω ι input next) :=
  if p.phase = .post then .error (.invalidValue "step" "main steps must precede post steps")
  else do pure ⟨← p.pipeline.addStep .main (spec label f), .main⟩

/-- Adds a step after main. -/
def post (p : TypedPipeline ω ι input output) (label : String) (f : TypedFunction ω output output) :
    Except ConfigError (TypedPipeline ω ι input output) := do
  pure ⟨← p.pipeline.addStep .post (spec label f), .post⟩

/-- Changes settings of the pipeline underneath. -/
def configure (p : TypedPipeline ω ι input output)
    (f : Pipeline ω ι (Typed τ) → Except ConfigError (Pipeline ω ι (Typed τ))) :
    Except ConfigError (TypedPipeline ω ι input output) := do
  pure { p with pipeline := ← f p.pipeline }

/-- Starts the next run at a label. -/
def jumpTo (p : TypedPipeline ω ι input output) (label : String) : TypedPipeline ω ι input output :=
  { p with pipeline := p.pipeline.jumpTo label }

variable [Host ω] [LocalAction ω ι (Typed τ)]

/-- The end of a run with its last value at the type of the output. -/
def typedEnding (output : τ) (e : Ending ω ι (Typed τ) (RunResult (Typed τ))) :
    Ending ω ι (Typed τ) (RunResult (ValueTypes.Value output)) :=
  match e with
  | .completed r =>
    match r.context.as? output with
    | some v => .completed (r.map fun _ => v)
    | none => .failed (.internal s!"output is not a {ValueTypes.name output}")
  | .failed e => .failed e
  | .panicked t => .panicked t
  | .blocked h => .blocked h

/-- Runs the pipeline on a value. Every run may jump, and its last value is checked. -/
def execute (p : TypedPipeline ω ι input output) (v : ValueTypes.Value input) (s : Store ω ι) :
    Ending ω ι (Typed τ) (RunResult (ValueTypes.Value output)) × TypedPipeline ω ι input output ×
      Store ω ι :=
  let (e, pipeline, s) := p.pipeline.execute (some (Typed.marker output)) ⟨input, v⟩ s
  (typedEnding output e, { p with pipeline := pipeline }, s)

end TypedPipeline
end Pipeworks
