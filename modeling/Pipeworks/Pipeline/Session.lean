import Pipeworks.Pipeline.Builder
/-!
# Sessions

A session applies each step as it is added and keeps it. What was kept can be frozen into a pipeline.
A session that ended ignores further steps until it is reset.
-/

namespace Pipeworks

structure Session (ω ι C : Type) where
  name : String
  shortCircuitOnException : Bool
  handler : Option (ErrorHandler C)
  value : C
  ended : Bool
  recorded : ByPhase (List (StepSpec ω ι C))
  nextIndex : ByPhase Nat
  control : Control C

namespace Session
variable {ω ι C : Type}

def new [Host ω] (name : String) (shortCircuitOnException : Bool) (initial : C)
    (handler : Option (ErrorHandler C)) (w : ω) : Session ω ι C × ω :=
  let (control, w) := Control.new name handler w
  ({ name := name, shortCircuitOnException := shortCircuitOnException, handler := handler
     value := initial, ended := false, recorded := .const [], nextIndex := .const 0
     control := control }, w)

/-- What becomes of a step that was added. A step that is blocked has not answered. -/
inductive Added (C : Type) where
  | value (c : C)
  | failed (e : EngineError)
  | panicked (text : String)
  | blocked

/-- The session after the step at the control's place took `elapsed` and answered. -/
def settle (z : Session ω ι C) (elapsed : Nanos) (answer : Answer C) : Added C × Session ω ι C :=
  match answer with
  | .ok next =>
    let c := z.control.recordTiming elapsed true
    (.value next, { z with value := next, control := c, ended := z.ended || c.shortCircuited })
  | .error fault =>
    let c := z.control.recordTiming elapsed false
    match fault.asActionError with
    | .error e => (.failed e, { z with control := c })
    | .ok e =>
      let (value, c) := c.recordError z.value e
      if z.shortCircuitOnException then
        (.value value, { z with value := value, control := c.shortCircuit, ended := true })
      else (.value value, { z with value := value, control := c })

/-- Starts over with a value; what was kept stays. -/
def reset [Host ω] (z : Session ω ι C) (initial : C) (w : ω) : Session ω ι C × ω :=
  let (control, w) := z.control.reset w
  ({ z with value := initial, ended := false, control := control }, w)

/-- Forgets the steps that were kept, and counts from zero again. -/
def clearRecorded (z : Session ω ι C) : Session ω ι C :=
  { z with recorded := .const [], nextIndex := .const 0 }

def recordedCount (z : Session ω ι C) (phase : Phase) : Nat := (z.recorded.get phase).length

def result [Host ω] (z : Session ω ι C) (w : ω) : RunResult C := z.control.result z.value w

/-- Adds steps to a phase of a pipeline, in order. -/
def addAll (p : Pipeline ω ι C) (phase : Phase) (specs : List (StepSpec ω ι C)) :
    Except ConfigError (Pipeline ω ι C) :=
  specs.foldlM (·.addStep phase ·) p

/-- A pipeline of the steps that were kept, with the session's policy and handler. -/
def freeze [Host ω] (z : Session ω ι C) : Except ConfigError (Pipeline ω ι C) := do
  let p ← (Pipeline.new z.name).setShortCircuitOnException z.shortCircuitOnException
  let p ← z.handler.elim (.ok p) p.setErrorHandler
  let p ← addAll p .pre z.recorded.pre
  let p ← addAll p .main z.recorded.main
  addAll p .post z.recorded.post

variable [Host ω] [LocalAction ω ι C]

/-- Adds a step to a phase and applies it. A step that cannot be bound is not kept. -/
def addStep (z : Session ω ι C) (phase : Phase) (spec : StepSpec ω ι C) (s : Store ω ι) :
    Added C × Session ω ι C × Store ω ι :=
  if z.ended then (.value z.value, z, s)
  else
    let index := z.nextIndex.get phase
    match spec.manager.bind ⟨z.name, phase, index, spec.label, none, none⟩ s with
    | (.error (.error e), s) => (.failed (.configuration e), z, s)
    | (.error (.panicked t), s) => (.panicked t, z, s)
    | (.ok action, s) =>
      let begun := z.control.beginStep phase index (phase.stepName index spec.label)
      let a := action.apply z.value begun s
      let z := { z with
        recorded := z.recorded.push phase spec
        nextIndex := z.nextIndex.modify (· + 1) phase
        control := begun.absorb a.marks }
      match a.outcome with
      | .panicked t => (.panicked t, z, a.world)
      | .blocked => (.blocked, z, a.world)
      | .answered answer =>
        let (added, z) := z.settle (Host.now a.world - Host.now s) answer
        (added, z, a.world)

def addAction (z : Session ω ι C) (phase : Phase) (action : Action ω C) (s : Store ω ι) :
    Added C × Session ω ι C × Store ω ι :=
  z.addStep phase (.shared action) s

end Session
end Pipeworks
