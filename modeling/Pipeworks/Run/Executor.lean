import Pipeworks.Pipeline.Plan
import Pipeworks.Metrics.Event
/-!
# Executors

A run is a cursor over a plan. Each turn of it begins the step at the cursor and applies it, and
`settle` makes the next cursor of what it answered, or ends the run with an error. A phased run goes
through the phases in order and takes a request to jump for a failure. An addressed run follows such
requests within a budget, and ends with the first failure if failures short-circuit.
-/

namespace Pipeworks

/-- Waits before a delayed jump. An error ends the run. -/
abbrev Sleeper (ω : Type) := Nanos → ω → Except EngineError Unit × ω

/-- Lets the time pass in the world. -/
def Sleeper.host {ω : Type} [Host ω] : Sleeper ω := fun d w => (.ok (), Host.wait d w)

/-- Waits as long as a jump asks for. A jump without a delay does not wait. -/
def Sleeper.pause {ω ι : Type} (sleeper : Sleeper ω) (d : Nanos) (s : Store ω ι) :
    Except EngineError Unit × Store ω ι :=
  if d = 0 then (.ok (), s)
  else
    let (slept, w) := sleeper d s.world
    (slept, { s with world := w })

/-- A pause that ends a run is an error of the sleeper. -/
theorem Sleeper.pause_eq_error {ω ι : Type} {sleeper : Sleeper ω} {d : Nanos} {s s' : Store ω ι}
    {e : EngineError} (h : sleeper.pause d s = (.error e, s')) :
    d ≠ 0 ∧ (sleeper d s.world).1 = .error e := by
  unfold pause at h
  split at h
  · cases h
  · exact ⟨‹_›, congrArg Prod.fst h⟩

inductive Discipline (ω : Type) where
  | phased
  | addressed (maxJumps : Nat) (sleeper : Sleeper ω)

/-- The number of jumps that a run may make. -/
def Discipline.budget {ω : Type} : Discipline ω → Nat
  | phased => 0
  | addressed m _ => m

structure Executor (ω ι C : Type) where
  plan : Plan ω ι C
  sink : Sink ω
  discipline : Discipline ω
  /-- What the last context of a run must be. -/
  expectedOutput : Option (Marker C)

/-- Where a run stands between two steps. -/
structure Cursor (C : Type) where
  position : Nat
  value : C
  control : Control C
  jumps : Nat

namespace Cursor
variable {ω ι C : Type}

/-- The control that a step is begun with. -/
def begun (cur : Cursor C) (step : BoundStep ω ι C) : Control C :=
  cur.control.beginStep step.phase step.index step.name

/-- The cursor with the control as a step left it. -/
def left (cur : Cursor C) (step : BoundStep ω ι C) (m : Control.Marks) : Cursor C :=
  { cur with control := (cur.begun step).absorb m }

end Cursor

/-- A run that waits. -/
inductive Held (ω ι C : Type) where
  /-- The step at the cursor was begun with this control, and has not answered. -/
  | atStep (executor : Executor ω ι C) (step : BoundStep ω ι C) (cursor : Cursor C) (begun : Control C)
    (since : Nanos)
  /-- There is no pipeline to run on yet. -/
  | atStart (cursor : Cursor C)

/-- Where a run waits. -/
def Held.cursor {ω ι C : Type} : Held ω ι C → Cursor C
  | atStep _ _ cursor _ _ => cursor
  | atStart cursor => cursor

inductive Ending (ω ι C α : Type) where
  | completed (a : α)
  | failed (e : EngineError)
  | panicked (text : String)
  | blocked (held : Held ω ι C)

def Ending.map {ω ι C α β : Type} (f : α → β) : Ending ω ι C α → Ending ω ι C β
  | completed a => completed (f a)
  | failed e => failed e
  | panicked t => panicked t
  | blocked h => blocked h

/-- One step that a run began: where the run stood, what became of the application, the marks that it
left on the control, and the cursor or the end that it led to. -/
structure Turn (ω ι C : Type) where
  cursor : Cursor C
  step : BoundStep ω ι C
  outcome : Outcome C
  marks : Control.Marks
  led : Except (Ending ω ι C (C × Control C)) (Cursor C)

namespace Executor
variable {ω ι C : Type}

def phased (plan : Plan ω ι C) (sink : Sink ω) : Executor ω ι C := ⟨plan, sink, .phased, none⟩

/-- An executor that follows jumps, at least one. -/
def addressed (plan : Plan ω ι C) (sink : Sink ω) (maxJumps : Nat) (sleeper : Sleeper ω) :
    Executor ω ι C :=
  ⟨plan, sink, .addressed (max maxJumps 1) sleeper, none⟩

def emit (x : Executor ω ι C) (c : Control C) (e : Event) (s : Store ω ι) : Store ω ι :=
  { s with world := x.sink ⟨x.plan.name, c.run⟩ e s.world }

/-- Whether a step of pre or post ends its phase: it recorded an error or set the flag, and the
policy asks for it. -/
def endsPhase (x : Executor ω ι C) (position : Nat) (begun ended : Control C) : Bool :=
  x.plan.policy.prePostAbort && x.plan.phaseAt position != .main &&
    (begun.errors.size < ended.errors.size || (!begun.shortCircuited && ended.shortCircuited))

/-- The position behind a step of a phased run. -/
def nextPosition (x : Executor ω ι C) (position : Nat) (begun ended : Control C) : Nat :=
  x.plan.advance ended.shortCircuited
    (if x.endsPhase position begun ended then x.plan.phaseEnd position else position + 1)

/-- The cursor behind a step of a phased run that handed on a context. -/
def pass (x : Executor ω ι C) (begun : Control C) (cur : Cursor C) (value : C) (c : Control C) :
    Cursor C :=
  { cur with position := x.nextPosition cur.position begun c, value := value, control := c }

/-- The end of a step of a phased run. -/
def settlePhased (x : Executor ω ι C) (step : BoundStep ω ι C) (begun : Control C) (cur : Cursor C)
    (elapsed : Nanos) (answer : Answer C) (s : Store ω ι) :
    Except EngineError (Cursor C) × Store ω ι :=
  match answer with
  | .ok next =>
    let c := cur.control.recordTiming elapsed true
    let s := x.emit c (.stepEnd cur.position step.displayLabel elapsed true) s
    (.ok (x.pass begun cur next c), s)
  | .error fault =>
    let c := cur.control.recordTiming elapsed false
    match fault.asActionError with
    | .error e => (.error e, x.emit c (.stepError cur.position step.displayLabel e.message) s)
    | .ok e =>
      let s := x.emit c (.stepError cur.position step.displayLabel e.display) s
      let s := x.emit c (.stepEnd cur.position step.displayLabel elapsed false) s
      let (value, c) := c.recordError cur.value e
      let c := if x.plan.policy.shortCircuitOnException then c.shortCircuit else c
      (.ok (x.pass begun cur value c), s)

/-- Follows a request to jump: the budget, the label and its region are checked, then the request is
reported, waited for, and the input expected at the label is checked. -/
def transfer (x : Executor ω ι C) (maxJumps : Nat) (sleeper : Sleeper ω) (step : BoundStep ω ι C)
    (cur : Cursor C) (signal : JumpSignal) (s : Store ω ι) :
    Except EngineError (Cursor C) × Store ω ι :=
  if maxJumps ≤ cur.jumps then (.error (.jump (.budgetExceeded x.plan.name maxJumps)), s)
  else
    match x.plan.indexOf? signal.label with
    | none => (.error (.jump (.unknownLabel x.plan.name signal.label)), s)
    | some target =>
      if target < x.plan.preBoundary then
        (.error (.jump (.intoPreRegion signal.label target x.plan.preBoundary)), s)
      else
        let s := x.emit cur.control (.jump step.displayLabel signal.label signal.delayMillis) s
        match sleeper.pause signal.delay s with
        | (.error e, s) => (.error e, s)
        | (.ok (), s) =>
          match ((x.plan.step? target).bind (·.expectedInput)).filter (!·.test cur.value) with
          | some m => (.error (.jump (.typeMismatch signal.label m.typeName)), s)
          | none =>
            (.ok { cur with position := x.plan.advance cur.control.shortCircuited target
                            jumps := cur.jumps + 1 }, s)

/-- The cursor behind a step of an addressed run that did not jump. -/
def goOn (x : Executor ω ι C) (cur : Cursor C) (value : C) (c : Control C) : Cursor C :=
  { cur with position := x.plan.advance c.shortCircuited (cur.position + 1)
             value := value, control := c }

/-- The end of a step of an addressed run. -/
def settleAddressed (x : Executor ω ι C) (maxJumps : Nat) (sleeper : Sleeper ω)
    (step : BoundStep ω ι C) (cur : Cursor C) (elapsed : Nanos) (answer : Answer C)
    (s : Store ω ι) : Except EngineError (Cursor C) × Store ω ι :=
  match answer with
  | .ok value =>
    let c := cur.control.recordTiming elapsed true
    (.ok (x.goOn cur value c), x.emit c (.stepEnd cur.position step.displayLabel elapsed true) s)
  | .error (.jump signal) =>
    let c := cur.control.recordTiming elapsed true
    let s := x.emit c (.stepEnd cur.position step.displayLabel elapsed true) s
    x.transfer maxJumps sleeper step { cur with control := c } signal s
  | .error (.failed e) =>
    let c := cur.control.recordTiming elapsed false
    let s := x.emit c (.stepError cur.position step.displayLabel e.display) s
    let (value, c) := c.recordError cur.value e
    if x.plan.policy.shortCircuitOnException then (.error (.action e), s)
    else (.ok (x.goOn cur value c), s)
  | .error (.abort e) =>
    let c := cur.control.recordTiming elapsed false
    (.error e, x.emit c (.stepError cur.position step.displayLabel e.message) s)

/-- The cursor that the answer of the step at `cur` leads to, or the error that ends the run. The
control of `cur` is the one that the step left; `begun` is the one that it was begun with. -/
def settle (x : Executor ω ι C) (step : BoundStep ω ι C) (begun : Control C) (cur : Cursor C)
    (elapsed : Nanos) (answer : Answer C) (s : Store ω ι) :
    Except EngineError (Cursor C) × Store ω ι :=
  match x.discipline with
  | .phased => x.settlePhased step begun cur elapsed answer s
  | .addressed m sleeper => x.settleAddressed m sleeper step cur elapsed answer s

/-- What the outcome of the step at `cur` leads to: the next cursor, or the end of the run. -/
def lead [Host ω] (x : Executor ω ι C) (step : BoundStep ω ι C) (begun : Control C) (cur : Cursor C)
    (since : Nanos) (o : Outcome C) (s : Store ω ι) :
    Except (Ending ω ι C (C × Control C)) (Cursor C) × Store ω ι :=
  match o with
  | .panicked t => (.error (.panicked t), s)
  | .blocked => (.error (.blocked (.atStep x step cur begun since)), s)
  | .answered a =>
    let (r, s) := x.settle step begun cur (Host.now s - since) a s
    (r.mapError .failed, s)

end Executor
end Pipeworks
