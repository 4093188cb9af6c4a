import Pipeworks.Pipeline.Setting
import Pipeworks.Script.Value
/-!
# Typed pipelines of functions on values
-/

namespace Pipeworks

/-- A typed pipeline with the type that it has come to. -/
structure DataPipeline (ω : Type) (input : DataType) where
  output : DataType
  pipeline : TypedPipeline ω Empty input output

/-- One call of the builder of a typed pipeline. -/
inductive DataCall (ω : Type) where
  | pre (label : String) (f : DataFunction)
  | step (label : String) (f : DataFunction) (output : DataType) (controlled : Bool)
  | post (label : String) (f : DataFunction)
  | configure (s : PipelineSetting ω Datum)

namespace DataPipeline
variable {ω : Type} {input : DataType}

/-- The pipeline after a call. The calls of its function are counted in a cell. A pipeline that has come
to another type is past pre. -/
def extend (p : DataPipeline ω input) (calls : Cell ω Nat) :
    DataCall ω → Except ConfigError (DataPipeline ω input)
  | .pre label f =>
    if h : p.output = input then do
      let q := cast (congrArg (TypedPipeline ω Empty input) h) p.pipeline
      pure ⟨input, ← q.pre label (f.typed false calls input input)⟩
    else .error (.invalidValue "pre" "pre steps must precede main steps")
  | .step label f next controlled => do
    pure ⟨next, ← p.pipeline.step label (f.typed controlled calls p.output next)⟩
  | .post label f => do
    pure ⟨p.output, ← p.pipeline.post label (f.typed false calls p.output p.output)⟩
  | .configure s => do pure ⟨p.output, ← p.pipeline.configure (·.set s)⟩

end DataPipeline
end Pipeworks
