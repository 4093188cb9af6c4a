import Pipeworks.Run.Lead
/-!
# Runs

A run takes one turn after another until a turn ends it or there is no step at its cursor. It ends
since each turn moves the cursor on or uses up a jump.
-/

namespace Pipeworks
namespace Executor
variable {ω ι C : Type} [Host ω] [LocalAction ω ι C]

/-- Begins the step at a cursor and applies it. -/
def turn (x : Executor ω ι C) (cur : Cursor C) (step : BoundStep ω ι C) (s : Store ω ι) :
    Turn ω ι C × Store ω ι :=
  let begun := cur.begun step
  let s := x.emit begun (.stepStart cur.position step.displayLabel) s
  let a := step.action.apply cur.value begun s
  let r := x.lead step begun (cur.left step a.marks) (Host.now s) a.outcome a.world
  (⟨cur, step, a.outcome, a.marks, r.1⟩, r.2)

theorem leads_turn (x : Executor ω ι C) (cur : Cursor C) (step : BoundStep ω ι C) (s : Store ω ι) :
    x.Leads (cur.begun step) (cur.left step (x.turn cur step s).1.marks) (x.turn cur step s).1.outcome
      (x.turn cur step s).1.led :=
  x.leads_lead step _ _ _ _ _

theorem follows_turn {x : Executor ω ι C} {cur next : Cursor C} {step : BoundStep ω ι C}
    {s : Store ω ι} (hpos : cur.position < x.plan.size) (h : (x.turn cur step s).1.led = .ok next) :
    x.Follows cur next := by
  have hl := x.leads_turn cur step s
  rw [h] at hl
  -- The control is no part of what makes one cursor follow another.
  exact (hl.follows hpos : x.Follows (cur.left step _) next)

/-- Runs from a cursor to the end of the plan. -/
def drive (x : Executor ω ι C) (cur : Cursor C) (s : Store ω ι) :
    Ending ω ι C (C × Control C) × Store ω ι :=
  match _hstep : x.plan.step? cur.position with
  | none => (.completed (cur.value, cur.control), s)
  | some step =>
    match _hturn : x.turn cur step s with
    | (⟨_, _, _, _, .error e⟩, s) => (e, s)
    | (⟨_, _, _, _, .ok next⟩, s) => drive x next s
termination_by x.measure cur
decreasing_by
  have hpos := x.plan.lt_size_of_step? _hstep
  exact (follows_turn hpos (by rw [_hturn])).decreases hpos

/-- The end of a run: the last context is checked, and the end is reported. -/
def finish (x : Executor ω ι C) (begun : Control C) :
    Ending ω ι C (C × Control C) × Store ω ι → Ending ω ι C (RunResult C) × Store ω ι
  | (.completed (value, control), s) =>
    match x.expectedOutput.filter (!·.test value) with
    | some m => failed s (.jump (.outputTypeMismatch x.plan.name m.typeName))
    | none =>
      let r := control.result value s
      (.completed r, x.emit begun (.pipelineEnd r.errors.isEmpty (elapsed s) none) s)
  | (.failed e, s) => failed s e
  | (.panicked t, s) => (.panicked t, s)
  | (.blocked h, s) => (.blocked h, s)
where
  elapsed (s : Store ω ι) : Nanos := Host.now s - begun.startedAt
  failed (s : Store ω ι) (e : EngineError) : Ending ω ι C (RunResult C) × Store ω ι :=
    (.failed e, x.emit begun (.pipelineEnd false (elapsed s) (some e.message)) s)

/-- The cursor of a run that starts at a label, or at the first step. -/
def startAt (x : Executor ω ι C) (start : Option String) (input : C) (control : Control C) :
    Except EngineError (Cursor C) :=
  match start with
  | none => .ok ⟨0, input, control, 0⟩
  | some label =>
    match x.plan.indexOf? label with
    | none => .error (.jump (.unknownLabel x.plan.name label))
    | some position => .ok ⟨position, input, control, 0⟩

/-- The control of a new run, whose start is reported. -/
def opening (x : Executor ω ι C) (start : Option String) (s : Store ω ι) : Control C × Store ω ι :=
  let (control, s) := Control.new x.plan.name x.plan.definition.handler s
  (control, x.emit control (.pipelineStart start) s)

/-- Runs the plan on a context, from the step with the start label if there is one. -/
def execute (x : Executor ω ι C) (start : Option String) (input : C) (s : Store ω ι) :
    Ending ω ι C (RunResult C) × Store ω ι :=
  let (control, s) := x.opening start s
  match x.startAt start input control with
  | .error e => x.finish control (.failed e, s)
  | .ok cur => x.finish control (x.drive cur s)

/-- Goes on with a run that waits at a step, once the step has answered. -/
def resume (h : Held ω ι C) (answer : Answer C) (s : Store ω ι) :
    Ending ω ι C (RunResult C) × Store ω ι :=
  match h with
  | .atStart _ => (.blocked h, s)
  | .atStep x step cur begun since =>
    match x.lead step begun cur since (.answered answer) s with
    | (.error e, s) => x.finish begun (e, s)
    | (.ok next, s) => x.finish begun (x.drive next s)

end Executor
end Pipeworks
