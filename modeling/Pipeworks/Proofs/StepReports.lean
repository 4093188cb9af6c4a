import Pipeworks.Proofs.Agreement
import Pipeworks.Proofs.EventStream

/-!
# Steps that are reported finished

`steps_reported_finished`: behind its start a step is reported finished at most once, with the success that its
timing has. Not every step is: no executor reports the end of a step that aborts, and an addressed run does
not report the end of a step that fails, while a phased one does. Where both take the same turns, this is all
the difference between what they report.
-/

namespace Pipeworks

/-- The report that a step has finished without success. -/
def Event.isFailedEnd : Event → Bool
  | stepEnd _ _ _ false => true
  | _ => false

namespace Executor
variable {ω ι C : Type} {x y : Executor ω ι C} {t u : Turn ω ι C}

/-- In turns that begin the same step and have the same outcome, no request to jump, the addressed run
reports what the phased one does, but for the end of a step that failed. -/
theorem events_of_same {m : Nat} {sleeper : Sleeper ω} {policy : ErrorPolicy} (hx : x.discipline = .phased)
    (hy : y.discipline = .addressed m sleeper) (hplace : u.place = t.place) (ho : u.outcome = t.outcome)
    (hq : t.outcome.Quiet policy) : y.events u = (x.events t).filter (!·.isFailedEnd) := by
  obtain ⟨hposition, hstep⟩ : u.cursor.position = t.cursor.position ∧ u.step = t.step :=
    Prod.mk.inj hplace
  rw [events, events, List.filter_cons_of_pos rfl, hposition, hstep, ho]
  unfold closing
  rw [hx, hy, hposition]
  generalize t.outcome = o at hq
  cases o using Outcome.byFault with
  | jump signal => exact hq.elim
  | next v | failed e | abort e | panicked text | blocked => rfl

theorem events_turns_of_same {m : Nat} {sleeper : Sleeper ω} {policy : ErrorPolicy}
    (hx : x.discipline = .phased) (hy : y.discipline = .addressed m sleeper) {ts us : List (Turn ω ι C)}
    (h : us.map (fun t => (t.place, t.outcome)) = ts.map (fun t => (t.place, t.outcome)))
    (hq : (∀ t ∈ ts, t.outcome.Quiet policy) ∨ ∀ t ∈ us, t.outcome.Quiet policy) :
    us.flatMap y.events = (ts.flatMap x.events).filter (!·.isFailedEnd) := by
  induction ts generalizing us with
  | nil =>
    obtain rfl := List.map_eq_nil_iff.1 h
    rfl
  | cons t ts ih =>
    obtain ⟨u, us, rfl, hhead, htail⟩ := List.map_eq_cons_iff.1 h
    obtain ⟨hplace, ho⟩ := Prod.mk.inj hhead
    have hturn : t.outcome.Quiet policy := by
      rcases hq with hq | hq
      · exact hq t List.mem_cons_self
      · rw [← ho]
        exact hq u List.mem_cons_self
    have hrest := ih htail (hq.imp (fun hq v hv => hq v (List.mem_cons_of_mem _ hv))
      fun hq v hv => hq v (List.mem_cons_of_mem _ hv))
    rw [List.flatMap_cons, List.flatMap_cons, List.filter_append, hrest,
      events_of_same hx hy hplace ho hturn]

end Executor

theorem Ending.report_of_like {ω ι C : Type} {e e' : Ending ω ι C (RunResult C)}
    (h : e.Like RunResult.Alike e') : e'.report 0 = e.report 0 := by
  cases h with
  | completed h => rw [report, report, h.errors]
  | failed e => rfl
  | panicked t => rfl
  | blocked h h' => rfl

theorem Ending.filter_report {ω ι C : Type} (e : Ending ω ι C (RunResult C)) :
    (e.report 0).filter (!·.isFailedEnd) = e.report 0 := by
  cases e <;> rfl

variable {ω ι C : Type} [Host ω] [LocalAction ω ι C]

theorem Executor.success_of_completed {x : Executor ω ι C} {start : Option String} {input : C} {s : Store ω ι}
    {r : RunResult C} (h : (x.execute start input s).1 = .completed r) :
    r.timings.map (·.success) = (x.trace start input s).map fun t => x.succeeds t.outcome := by
  obtain ⟨htimings, -⟩ := logs_of_completed h
  calc r.timings.map (·.success)
      = (r.timings.map Timing.untimed).map (·.success) := by rw [List.map_map]; rfl
    _ = (x.trace start input s).map fun t => x.succeeds t.outcome := by rw [htimings, List.map_map]; rfl

/-- The runs of an interpreter and of a phased executor of its plan that agree: the actions cannot tell them
apart, pre and post do not abort, no start is queued, and no step asks for a jump, or fails while failures
short-circuit. -/
structure Interpreter.Comparable (i : Interpreter ω ι C) (sink : Sink ω) (input : C) (s s' : Store ω ι) :
    Prop where
  related : ∃ R : Control C × Store ω ι → Control C × Store ω ι → Prop, Indistinct i.plan sink i.sink R ∧
    R (Control.new i.plan.name i.plan.definition.handler s)
      (Control.new i.plan.name i.plan.definition.handler s')
  start : i.queuedStart = none
  noAbort : i.plan.policy.prePostAbort = false
  quiet : (∀ t ∈ (Executor.phased i.plan sink).trace none input s, t.outcome.Quiet i.plan.policy) ∨
    ∀ t ∈ i.turns none none input s', t.outcome.Quiet i.plan.policy

theorem Interpreter.Comparable.stream_eq {i : Interpreter ω ι C} {sink : Sink ω} {input : C} {s s' : Store ω ι}
    (h : i.Comparable sink input s s') : (i.executor none).stream none input s' =
      ((Executor.phased i.plan sink).stream none input s).filter (!·.isFailedEnd) := by
  obtain ⟨R, hR, hs⟩ := h.related
  have P := Executor.paired i sink hR h.noAbort
  let x := Executor.phased i.plan sink
  let y := i.executor none
  have h₀ := P.abreast_start input hs (x.opening none s).1 (y.opening none s').1
    (.pipelineStart none) (.pipelineStart none)
  obtain ⟨hturns, hlike⟩ := P.turns_agree h₀ h.quiet
  have hevents : (y.trace none input s').flatMap y.events =
      ((x.trace none input s).flatMap x.events).filter (!·.isFailedEnd) :=
    Executor.events_turns_of_same rfl rfl hturns h.quiet
  have hend : (y.execute none input s').1.report 0 = (x.execute none input s).1.report 0 :=
    Ending.report_of_like (Executor.finish_like rfl rfl _ _ hlike _ _)
  rw [Executor.stream, Executor.stream, List.filter_append, Ending.filter_report, List.filter_cons_of_pos rfl,
    ← hevents, ← hend]

/-- What is reported of the steps of a run. Its stream is what its effects report. Behind the start of a step it
has one report that the step has finished, with the success that the timing of the step has, or none: that is
so if the step aborts, and in an addressed run if it fails. The runs of an interpreter and a phased executor
that agree report the same but for the ends of failed steps, which the interpreter leaves out. -/
theorem steps_reported_finished (x : Executor ω ι C) (start : Option String) (input : C) (s : Store ω ι) :
    (∃ effects : List (Effect ω ι C),
      (x.execute start input s).2 = effects.foldl (x.carryOut (x.opening start s).1.run)
        (Control.new x.plan.name x.plan.definition.handler s).2 ∧
      (Effect.events effects).map Event.untimed = x.stream start input s) ∧
    (∀ t ∈ x.trace start input s, ∃ rest,
      x.events t = .stepStart t.cursor.position t.step.displayLabel :: rest ∧
      rest.filter (·.isStepStart) = [] ∧
      rest.filter (·.isStepEnd) = if x.finishes t.outcome then
        [.stepEnd t.cursor.position t.step.displayLabel 0 (x.succeeds t.outcome)] else []) ∧
    (∀ r, (x.execute start input s).1 = .completed r →
      r.timings.map (·.success) = (x.trace start input s).map fun t => x.succeeds t.outcome) ∧
    ∀ (i : Interpreter ω ι C) (sink : Sink ω) (s s' : Store ω ι), i.Comparable sink input s s' →
      (i.executor none).stream none input s' =
        ((Executor.phased i.plan sink).stream none input s).filter (!·.isFailedEnd) := by
  obtain ⟨effects, hstore, -, hevents⟩ := x.reports_stream start input s
  refine ⟨⟨effects, hstore, hevents⟩, fun t _ => ?_, fun r h => Executor.success_of_completed h,
    fun i sink s s' h => h.stream_eq⟩
  have hcloses := x.closes_closing t.step t.cursor t.outcome
  exact ⟨_, rfl, hcloses.starts, hcloses.ends⟩

theorem steps_reported_finished_halting :
    (haltingPlan.interpreter.executor none).stream none 7 (.ofWorld (.new 1)) =
      ((Executor.phased haltingPlan haltingPlan.logging).stream none 7 (.ofWorld (.new 1))).filter
        (!·.isFailedEnd) := by
  have hq : ∀ st ∈ haltingPlan.definition.steps.flat, ∀ v c s,
      (st.action.apply v c s).outcome.Quiet haltingPlan.policy := by
    intro st hst v c s
    obtain ⟨o, m, ha, hq⟩ := haltingPlan.apply_eq st hst v c
    rw [ha]
    exact hq
  obtain ⟨-, -, -, hagree⟩ := steps_reported_finished (Executor.phased haltingPlan haltingPlan.logging) none 7
    (.ofWorld (.new 1))
  have hquiet := Executor.quiet_of_actions (x := Executor.phased haltingPlan haltingPlan.logging) hq
  exact hagree haltingPlan.interpreter haltingPlan.logging _ _
    ⟨⟨_, haltingPlan.indistinct, rfl, rfl⟩, rfl, rfl, .inl (hquiet _ _)⟩

/-- A plan whose only step is given. Its failures are passed over. -/
def solePlan (a : Action Bench Nat) : Plan Bench Empty Nat :=
  .ofDefinition ⟨"sole", ⟨false, false⟩, none, ⟨[], [haltingPlan.step .main 0 a], []⟩⟩

namespace solePlan

def abort : Action Bench Nat := .pure fun _ => .error (.abort (.interrupted "closed"))

def phased (a : Action Bench Nat) : Executor Bench Empty Nat := .phased (solePlan a) haltingPlan.collecting

def interpreter (a : Action Bench Nat) : Interpreter Bench Empty Nat :=
  (Interpreter.new (solePlan a)).withSink haltingPlan.collecting

/-- What the sink has collected. -/
def collected (s : Store Bench Empty) : List Event :=
  ((Bench.eventsOf (.named "events")).get s.world).toList.map (·.2)

def turn (x : Executor Bench Empty Nat) (a : Action Bench Nat) (s : Store Bench Empty) :
    Turn Bench Empty Nat × Store Bench Empty :=
  x.turn ⟨0, 7, (x.opening none s).1, 0⟩ (haltingPlan.step .main 0 a) (x.opening none s).2

theorem execute_eq {x : Executor Bench Empty Nat} {a : Action Bench Nat} {s : Store Bench Empty}
    (hx : x.plan = solePlan a) (h : ∀ next, (turn x a s).1.led = .ok next → next.position = 1) :
    x.execute none 7 s = x.finish (x.opening none s).1 ((turn x a s).1.ending, (turn x a s).2) := by
  let first : Cursor Nat := ⟨0, 7, (x.opening none s).1, 0⟩
  have hstep : x.plan.step? first.position = some (haltingPlan.step .main 0 a) := by
    rw [hx]
    rfl
  have hdrive : x.drive first (x.opening none s).2 = ((turn x a s).1.ending, (turn x a s).2) := by
    cases hl : (turn x a s).1.led with
    | error e => rw [Executor.drive_of_error hstep hl, Turn.ending, hl]; rfl
    | ok next =>
      have hnone : x.plan.step? next.position = none := by
        rw [hx, h next hl]
        rfl
      rw [Executor.drive_of_ok hstep hl, Executor.drive_of_none hnone, Turn.ending, hl]
      rfl
  rw [← hdrive]
  rfl

end solePlan

/-- An interpreter does not report the end of a step that failed, though a phased run does and the step has a
timing. Neither of them reports the end of a step that aborts. -/
theorem failed_step_not_reported_finished :
    let s : Store Bench Empty := .ofWorld (.new 1)
    ((solePlan.interpreter haltingPlan.refuse).execute 7 s).1.map (fun r => r.timings.map (·.success)) =
      .completed [false] ∧
    solePlan.collected ((solePlan.interpreter haltingPlan.refuse).execute 7 s).2.2 =
      [.pipelineStart none, .stepStart 0 "s0", .stepError 0 "s0" "refused", .pipelineEnd false 0 none] ∧
    solePlan.collected ((solePlan.phased haltingPlan.refuse).execute none 7 s).2 =
      [.pipelineStart none, .stepStart 0 "s0", .stepError 0 "s0" "refused", .stepEnd 0 "s0" 0 false,
        .pipelineEnd false 0 none] ∧
    solePlan.collected ((solePlan.phased solePlan.abort).execute none 7 s).2 =
      [.pipelineStart none, .stepStart 0 "s0", .stepError 0 "s0" "Interrupted: closed",
        .pipelineEnd false 0 (some "Interrupted: closed")] := by
  intro s
  let y := (solePlan.interpreter haltingPlan.refuse).executor none
  have hinterpreter := solePlan.execute_eq (x := y) (a := haltingPlan.refuse) (s := s) rfl fun next h => by
    cases h
    rfl
  have hphased := solePlan.execute_eq (x := solePlan.phased haltingPlan.refuse) (s := s) rfl fun next h => by
    cases h
    rfl
  have habort := solePlan.execute_eq (x := solePlan.phased solePlan.abort) (s := s) rfl fun next h => by
    cases h
  refine ⟨?_, ?_, ?_, ?_⟩
  · show (y.execute none 7 s).1.map _ = _
    rw [hinterpreter]
    rfl
  · show solePlan.collected (y.execute none 7 s).2 = _
    rw [hinterpreter]
    rfl
  · rw [hphased]
    rfl
  · rw [habort]
    rfl

end Pipeworks
