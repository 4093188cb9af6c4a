import Pipeworks.Host
import Pipeworks.RunResult
import Pipeworks.Trail
/-!
# The control of a run

The state of one run that its actions see: where the run stands, whether it is short-circuited, and
the logs of errors and of timings. Logs only grow; each entry carries the place of the step that was
begun last. An action may do two things to it, record errors and short-circuit; `Marks` say which of
them it did.
-/

namespace Pipeworks

/-- Turns a context and an error recorded for it into the context to go on with. -/
abbrev ErrorHandler (C : Type) := C → RecordedError → C

structure Control (C : Type) where
  pipeline : String
  run : RunId
  startedAt : Nanos
  shortCircuited : Bool
  errors : Trail RecordedError
  timings : Trail Timing
  phase : Phase
  index : Nat
  step : String
  handler : Option (ErrorHandler C)

namespace Control
variable {C : Type}

/-- The control of a run that has not begun a step. -/
def fresh (pipeline : String) (handler : Option (ErrorHandler C)) (run : RunId) (now : Nanos) :
    Control C :=
  { pipeline := pipeline, run := run, startedAt := now, shortCircuited := false, errors := ∅
    timings := ∅, phase := .pre, index := 0, step := "", handler := handler }

def new {ω : Type} [Host ω] (pipeline : String) (handler : Option (ErrorHandler C)) (w : ω) :
    Control C × ω :=
  let (run, w) := Host.newRun w
  (fresh pipeline handler run (Host.now w), w)

def beginStep (c : Control C) (phase : Phase) (index : Nat) (name : String) : Control C :=
  { c with phase := phase, index := index, step := name }

def recordTiming (c : Control C) (elapsed : Nanos) (success : Bool) : Control C :=
  { c with timings := c.timings.push ⟨c.phase, c.index, c.step, saturate elapsed, success⟩ }

def shortCircuit (c : Control C) : Control C := { c with shortCircuited := true }

/-- An error at the place where the run stands. -/
def errorHere (c : Control C) (e : ActionError) : RecordedError :=
  ⟨c.pipeline, c.phase, c.index, c.step, e⟩

/-- Records an error. The handler, if there is one, sees it first and decides the context. -/
def recordError (c : Control C) (ctx : C) (e : ActionError) : C × Control C :=
  (c.handler.elim ctx (· ctx (c.errorHere e)), { c with errors := c.errors.push (c.errorHere e) })

/-- What an action did to the control: the errors it recorded, in order, and whether it
short-circuited the run. -/
structure Marks where
  recorded : List ActionError
  shortCircuit : Bool

def Marks.none : Marks := ⟨[], false⟩

/-- The control after an action left its marks. -/
def absorb (c : Control C) (m : Marks) : Control C :=
  { c with shortCircuited := c.shortCircuited || m.shortCircuit
           errors := c.errors.pushAll (m.recorded.map c.errorHere) }

@[simp] theorem absorb_none (c : Control C) : c.absorb .none = c := by
  cases c; simp [absorb, Marks.none, Trail.pushAll]

theorem absorb_recorded (c : Control C) (ctx : C) (e : ActionError) :
    (c.recordError ctx e).2 = c.absorb ⟨[e], false⟩ := by
  simp [recordError, absorb, Trail.pushAll]

/-- Starts over as a new run of the same pipeline. -/
def reset {ω : Type} [Host ω] (c : Control C) (w : ω) : Control C × ω := new c.pipeline c.handler w

/-- The result of the run as it stands. -/
def result {ω : Type} [Host ω] (c : Control C) (ctx : C) (w : ω) : RunResult C :=
  { context := ctx, shortCircuited := c.shortCircuited, errors := c.errors.toList
    timings := c.timings.toList
    elapsed := Host.now w - c.startedAt }

end Control
end Pipeworks
