import Pipeworks.Bench
import Pipeworks.Run.History

/-!
# Runs without jumps

`interpreter_agrees`: as long as no step asks for a jump, an interpreter runs a plan as a phased
run does. Both runs are kept abreast turn by turn: they stand at the same position with the same
context, and no action can tell them apart.
-/

namespace Pipeworks

/-- What is the same in two timings of a step: all but the duration. -/
def Timing.untimed (t : Timing) : Timing := { t with elapsed := 0 }

/-- Controls that differ in the run and in times alone. -/
structure Control.Alike {C : Type} (c c' : Control C) : Prop where
  pipeline : c.pipeline = c'.pipeline
  shortCircuited : c.shortCircuited = c'.shortCircuited
  errors : c.errors = c'.errors
  timings : c.timings.toList.map Timing.untimed = c'.timings.toList.map Timing.untimed
  phase : c.phase = c'.phase
  index : c.index = c'.index
  step : c.step = c'.step
  handler : c.handler = c'.handler

namespace Control.Alike
variable {C : Type} {c c' : Control C}

theorem beginStep (h : c.Alike c') (phase : Phase) (n : Nat) (name : String) :
    (c.beginStep phase n name).Alike (c'.beginStep phase n name) :=
  ⟨h.pipeline, h.shortCircuited, h.errors, h.timings, rfl, rfl, rfl, h.handler⟩

theorem errorHere (h : c.Alike c') : c.errorHere = c'.errorHere := by
  funext e
  simp only [Control.errorHere, h.pipeline, h.phase, h.index, h.step]

theorem absorb (h : c.Alike c') (m : Control.Marks) : (c.absorb m).Alike (c'.absorb m) := by
  refine ⟨h.pipeline, ?_, ?_, h.timings, h.phase, h.index, h.step, h.handler⟩
  · exact congrArg (· || m.shortCircuit) h.shortCircuited
  · simp only [Control.absorb, h.errors, h.errorHere]

theorem recordTiming (h : c.Alike c') (d d' : Nanos) (ok : Bool) :
    (c.recordTiming d ok).Alike (c'.recordTiming d' ok) := by
  refine ⟨h.pipeline, h.shortCircuited, h.errors, ?_, h.phase, h.index, h.step, h.handler⟩
  simp only [Control.recordTiming, Trail.toList_push, List.map_append, h.timings, h.phase, h.index, h.step]
  rfl

theorem recordError (h : c.Alike c') (v : C) (e : ActionError) :
    (c.recordError v e).1 = (c'.recordError v e).1 ∧ (c.recordError v e).2.Alike (c'.recordError v e).2 := by
  constructor
  · simp only [Control.recordError, h.handler, h.errorHere]
  · rw [Control.absorb_recorded, Control.absorb_recorded]
    exact h.absorb _

theorem shortCircuit (h : c.Alike c') : c.shortCircuit.Alike c'.shortCircuit :=
  ⟨h.pipeline, rfl, h.errors, h.timings, h.phase, h.index, h.step, h.handler⟩

end Control.Alike

/-- Results that differ in durations alone. -/
structure RunResult.Alike {C : Type} (r r' : RunResult C) : Prop where
  context : r.context = r'.context
  shortCircuited : r.shortCircuited = r'.shortCircuited
  errors : r.errors = r'.errors
  timings : r.timings.map Timing.untimed = r'.timings.map Timing.untimed

/-- Ends of the same kind: the same error or panic, or answers that are related. -/
inductive Ending.Like {ω ι C α : Type} (r : α → α → Prop) : Ending ω ι C α → Ending ω ι C α → Prop
  | completed {a b : α} (h : r a b) : Like r (.completed a) (.completed b)
  | failed (e : EngineError) : Like r (.failed e) (.failed e)
  | panicked (t : String) : Like r (.panicked t) (.panicked t)
  | blocked (h h' : Held ω ι C) : Like r (.blocked h) (.blocked h')

/-- Where a turn begins which step. -/
def Turn.place {ω ι C : Type} (t : Turn ω ι C) : Nat × BoundStep ω ι C := (t.cursor.position, t.step)

/-- The step asks for no jump, and does not fail if failures short-circuit the run. -/
def Outcome.Quiet {C : Type} (policy : ErrorPolicy) : Outcome C → Prop
  | .answered (.error (.jump _)) => False
  | .answered (.error (.failed _)) => policy.shortCircuitOnException = false
  | _ => True

section
variable {ω ι C : Type} [Host ω] [LocalAction ω ι C]

/-- `R` relates the states of two runs of a plan that its actions cannot tell apart, and whatever the
runs do between two actions keeps them so. What a sink does to the world is not seen by actions. -/
structure Indistinct (p : Plan ω ι C) (sink sink' : Sink ω)
    (R : Control C × Store ω ι → Control C × Store ω ι → Prop) : Prop where
  alike {c c' : Control C} {s s' : Store ω ι} (h : R (c, s) (c', s')) : c.Alike c'
  beginStep {c c' : Control C} {s s' : Store ω ι} (ph : Phase) (i : Nat) (n : String)
    (h : R (c, s) (c', s')) : R (c.beginStep ph i n, s) (c'.beginStep ph i n, s')
  absorb {c c' : Control C} {s s' : Store ω ι} (m : Control.Marks) (h : R (c, s) (c', s')) :
    R (c.absorb m, s) (c'.absorb m, s')
  /-- The time between two states is seen alike. -/
  recordTiming {b b' c c' : Control C} {r r' s s' : Store ω ι} (ok : Bool) (h₀ : R (b, r) (b', r'))
    (h : R (c, s) (c', s')) :
    R (c.recordTiming (Host.now s - Host.now r) ok, s) (c'.recordTiming (Host.now s' - Host.now r') ok, s')
  left {c c' : Control C} {s s' : Store ω ι} (hd : RunHeader) (e : Event) (h : R (c, s) (c', s')) :
    R (c, { s with world := sink hd e s.world }) (c', s')
  right {c c' : Control C} {s s' : Store ω ι} (hd : RunHeader) (e : Event) (h : R (c, s) (c', s')) :
    R (c, s) (c', { s' with world := sink' hd e s'.world })
  apply {c c' : Control C} {s s' : Store ω ι} {n : Nat} {step : BoundStep ω ι C} (v : C)
    (hn : p.step? n = some step) (h : R (c, s) (c', s')) :
    (step.action.apply v c s).outcome = (step.action.apply v c' s').outcome ∧
    (step.action.apply v c s).marks = (step.action.apply v c' s').marks ∧
    R (c, (step.action.apply v c s).world) (c', (step.action.apply v c' s').world)

theorem Indistinct.of_same {p : Plan ω ι C} {sink sink' : Sink ω}
    {Same : Store ω ι → Store ω ι → Prop} (hnow : ∀ s s', Same s s' → Host.now s = Host.now s')
    (hleft : ∀ s s' hd e, Same s s' → Same { s with world := sink hd e s.world } s')
    (hright : ∀ s s' hd e, Same s s' → Same s { s' with world := sink' hd e s'.world })
    (happly : ∀ step ∈ p.definition.steps.flat, ∀ v c s s', Same s s' →
      (step.action.apply v c s).outcome = (step.action.apply v c s').outcome ∧
      (step.action.apply v c s).marks = (step.action.apply v c s').marks ∧
      Same (step.action.apply v c s).world (step.action.apply v c s').world) :
    Indistinct p sink sink' (fun a b => a.1 = b.1 ∧ Same a.2 b.2) where
  alike h := by
    obtain ⟨rfl, -⟩ := h
    exact ⟨rfl, rfl, rfl, rfl, rfl, rfl, rfl, rfl⟩
  beginStep ph i n h := ⟨congrArg (·.beginStep ph i n) h.1, h.2⟩
  absorb m h := ⟨congrArg (·.absorb m) h.1, h.2⟩
  recordTiming ok h₀ h := by
    obtain ⟨rfl, hs⟩ := h
    exact ⟨by rw [hnow _ _ h₀.2, hnow _ _ hs], hs⟩
  left hd e h := ⟨h.1, hleft _ _ hd e h.2⟩
  right hd e h := ⟨h.1, hright _ _ hd e h.2⟩
  apply v hn h := by
    obtain ⟨rfl, hs⟩ := h
    obtain ⟨ho, hm, hw⟩ := happly _ (p.mem_of_step? hn) v _ _ _ hs
    exact ⟨ho, hm, rfl, hw⟩

/-- Nobody hears the events of silent runs, so that their actions may read the whole world. -/
theorem Indistinct.silent (p : Plan ω ι C) :
    Indistinct p .silent .silent (fun a b => a.1 = b.1 ∧ a.2 = b.2) :=
  .of_same (fun s s' h => congrArg Host.now h) (fun s s' hd e h => h) (fun s s' hd e h => h)
    fun step _ v c s s' h => by rw [h]; exact ⟨rfl, rfl, rfl⟩

end

namespace Executor
variable {ω ι C : Type} {R : Control C × Store ω ι → Control C × Store ω ι → Prop}

/-- Two runs stand at the same position with the same context, in related states. -/
structure Abreast (R : Control C × Store ω ι → Control C × Store ω ι → Prop) (cur : Cursor C)
    (s : Store ω ι) (cur' : Cursor C) (s' : Store ω ι) : Prop where
  position : cur.position = cur'.position
  value : cur.value = cur'.value
  related : R (cur.control, s) (cur'.control, s')

/-- Contexts and controls at the ends of two runs that are alike. -/
def AlikeEnds (a b : C × Control C) : Prop := a.1 = b.1 ∧ a.2.Alike b.2

/-- What two turns lead to: cursors that are abreast again, or ends of the same kind. -/
inductive Agree (R : Control C × Store ω ι → Control C × Store ω ι → Prop) :
    Except (Ending ω ι C (C × Control C)) (Cursor C) × Store ω ι →
    Except (Ending ω ι C (C × Control C)) (Cursor C) × Store ω ι → Prop
  | next {cur cur' : Cursor C} {s s' : Store ω ι} (h : Abreast R cur s cur' s') :
    Agree R (.ok cur, s) (.ok cur', s')
  | ended {e e' : Ending ω ι C (C × Control C)} (s s' : Store ω ι) (h : e.Like AlikeEnds e') :
    Agree R (.error e, s) (.error e', s')

theorem Agree.of_error {s s' : Store ω ι} {e : Ending ω ι C (C × Control C)}
    {led : Except (Ending ω ι C (C × Control C)) (Cursor C)} (h : Agree R (.error e, s) (led, s')) :
    ∃ e', led = .error e' ∧ e.Like AlikeEnds e' := by
  cases h with
  | ended _ _ h => exact ⟨_, rfl, h⟩

theorem Agree.of_ok {s s' : Store ω ι} {next : Cursor C}
    {led : Except (Ending ω ι C (C × Control C)) (Cursor C)} (h : Agree R (.ok next, s) (led, s')) :
    ∃ next', led = .ok next' ∧ Abreast R next s next' s' := by
  cases h with
  | next h => exact ⟨_, rfl, h⟩

variable [Host ω] [LocalAction ω ι C]

/-- A phased and an addressed executor of one plan whose runs cannot be told apart by its actions. -/
structure Paired (x y : Executor ω ι C) (R : Control C × Store ω ι → Control C × Store ω ι → Prop) :
    Prop where
  plan : y.plan = x.plan
  phased : x.discipline = .phased
  addressed : ∃ m sleeper, y.discipline = .addressed m sleeper
  noAbort : x.plan.policy.prePostAbort = false
  indistinct : Indistinct x.plan x.sink y.sink R

variable {x y : Executor ω ι C} {cur cur' : Cursor C} {s s' : Store ω ι}

namespace Paired

theorem emit_left (P : Paired x y R) {c c' : Control C} (b : Control C) (e : Event)
    (h : R (c, s) (c', s')) : R (c, x.emit b e s) (c', s') := P.indistinct.left _ e h

theorem emit_right (P : Paired x y R) {c c' : Control C} (b : Control C) (e : Event)
    (h : R (c, s) (c', s')) : R (c, s) (c', y.emit b e s') := P.indistinct.right _ e h

theorem abreast_next (P : Paired x y R) {v v' : C} {b c c' : Control C}
    (hpos : cur.position = cur'.position) (hv : v = v') (hr : R (c, s) (c', s')) :
    Abreast R (x.pass b cur v c) s (y.goOn cur' v' c') s' := by
  refine ⟨?_, hv, hr⟩
  have hf := (P.indistinct.alike hr).shortCircuited
  calc (x.pass b cur v c).position
      = x.plan.advance c.shortCircuited (cur.position + 1) := nextPosition_of_not_prePostAbort _ _ _ P.noAbort
    _ = (y.goOn cur' v' c').position := by rw [goOn, P.plan, hf, hpos]

theorem lead_agree (P : Paired x y R) (step : BoundStep ω ι C) {b b' : Control C} {r r' : Store ω ι}
    {o : Outcome C} (h₀ : R (b, r) (b', r')) (h : Abreast R cur s cur' s')
    (hq : o.Quiet x.plan.policy) :
    Agree R (x.lead step b cur (Host.now r) o s) (y.lead step b' cur' (Host.now r') o s') := by
  obtain ⟨m, sleeper, hy⟩ := P.addressed
  have ht (ok : Bool) := P.indistinct.recordTiming ok h₀ h.related
  cases o with
  | panicked t => exact .ended _ _ (.panicked t)
  | blocked => exact .ended _ _ (.blocked _ _)
  | answered a =>
    simp only [lead, settle, P.phased, hy]
    cases a with
    | ok v =>
      exact .next (P.abreast_next h.position rfl (P.emit_left _ _ (P.emit_right _ _ (ht true))))
    | error f =>
      cases f with
      | abort e => exact .ended _ _ (.failed e)
      | jump signal => exact hq.elim
      | failed e =>
        have hp : x.plan.policy.shortCircuitOnException = false := hq
        have hc := P.indistinct.absorb ⟨[e], false⟩ (ht false)
        have hal := P.indistinct.alike (ht false)
        simp only [settlePhased, settleAddressed, Fault.asActionError, P.plan, hp, Bool.false_eq_true,
          if_false]
        refine .next (P.abreast_next h.position ?_ ?_)
        · rw [h.value]
          exact (hal.recordError cur'.value e).1
        · rw [Control.absorb_recorded, Control.absorb_recorded]
          exact P.emit_left _ _ (P.emit_left _ _ (P.emit_right _ _ hc))

/-- A turn of both runs has the same outcome; a quiet one keeps them abreast or ends both. -/
theorem turn_agree (P : Paired x y R) {step : BoundStep ω ι C} (h : Abreast R cur s cur' s')
    (hstep : x.plan.step? cur.position = some step) :
    (x.turn cur step s).1.outcome = (y.turn cur' step s').1.outcome ∧
    ((x.turn cur step s).1.outcome.Quiet x.plan.policy →
      Agree R ((x.turn cur step s).1.led, (x.turn cur step s).2)
        ((y.turn cur' step s').1.led, (y.turn cur' step s').2)) := by
  have hb : R (cur.begun step, s) (cur'.begun step, s') := P.indistinct.beginStep _ _ _ h.related
  have hr := P.emit_left (cur.begun step) (.stepStart cur.position step.displayLabel)
    (P.emit_right (cur'.begun step) (.stepStart cur'.position step.displayLabel) hb)
  obtain ⟨ho, hm, ha⟩ := P.indistinct.apply cur.value hstep hr
  have hv : cur'.value = cur.value := h.value.symm
  refine ⟨?_, fun hq => ?_⟩
  · simp only [turn, hv]
    exact ho
  · simp only [turn, hv, ← hm, ← ho]
    exact P.lead_agree step hr ⟨h.position, h.value, P.indistinct.absorb _ ha⟩ hq

theorem step?_eq (P : Paired x y R) (h : Abreast R cur s cur' s') :
    y.plan.step? cur'.position = x.plan.step? cur.position := by
  rw [P.plan, h.position]

theorem turn_agree_of_quiet (P : Paired x y R) {step : BoundStep ω ι C} {ts : List (Turn ω ι C)}
    (h : Abreast R cur s cur' s') (hstep : x.plan.step? cur.position = some step)
    (hmem : (x.turn cur step s).1 ∈ ts)
    (hq : (∀ t ∈ ts, t.outcome.Quiet x.plan.policy) ∨
      ∀ t ∈ y.history cur' s', t.outcome.Quiet x.plan.policy) :
    Agree R ((x.turn cur step s).1.led, (x.turn cur step s).2)
      ((y.turn cur' step s').1.led, (y.turn cur' step s').2) := by
  obtain ⟨ho, hag⟩ := P.turn_agree h hstep
  refine hag ?_
  rcases hq with hq | hq
  · exact hq _ hmem
  · exact ho ▸ hq _ (turn_mem_history ((P.step?_eq h).trans hstep))

theorem turns_agree (P : Paired x y R) (h : Abreast R cur s cur' s')
    (hq : (∀ t ∈ x.history cur s, t.outcome.Quiet x.plan.policy) ∨
      ∀ t ∈ y.history cur' s', t.outcome.Quiet x.plan.policy) :
    (y.history cur' s').map (fun t => (t.place, t.outcome)) =
        (x.history cur s).map (fun t => (t.place, t.outcome)) ∧
      (x.drive cur s).1.Like AlikeEnds (y.drive cur' s').1 := by
  have hturn {cur cur' : Cursor C} {s s' : Store ω ι} {step : BoundStep ω ι C} (h : Abreast R cur s cur' s')
      (hstep : x.plan.step? cur.position = some step) :
      ((y.turn cur' step s').1.place, (y.turn cur' step s').1.outcome) =
        ((x.turn cur step s).1.place, (x.turn cur step s).1.outcome) := by
    rw [(P.turn_agree h hstep).1]
    simp [Turn.place, turn, h.position]
  fun_induction history x cur s generalizing cur' s' with
  | case1 cur s hn =>
    have hn' := (P.step?_eq h).trans hn
    rw [history_of_none hn', drive_of_none hn, drive_of_none hn']
    exact ⟨rfl, .completed ⟨h.value, P.indistinct.alike h.related⟩⟩
  | case2 cur s step hstep e hl =>
    have hstep' := (P.step?_eq h).trans hstep
    have hag := P.turn_agree_of_quiet h hstep (List.mem_singleton_self _) hq
    rw [hl] at hag
    obtain ⟨e', hl', hlike⟩ := hag.of_error
    rw [history_of_error hstep' hl', drive_of_error hstep hl, drive_of_error hstep' hl', List.map_singleton,
      List.map_singleton, hturn h hstep]
    exact ⟨rfl, hlike⟩
  | case3 cur s step hstep next hl ih =>
    have hstep' := (P.step?_eq h).trans hstep
    have hag := P.turn_agree_of_quiet h hstep List.mem_cons_self hq
    rw [hl] at hag
    obtain ⟨next', hl', hnext⟩ := hag.of_ok
    rw [history_of_ok hstep' hl'] at hq ⊢
    obtain ⟨hturns, hlike⟩ := ih hnext (hq.imp (fun hq t ht => hq t (List.mem_cons_of_mem _ ht))
      fun hq t ht => hq t (List.mem_cons_of_mem _ ht))
    rw [drive_of_ok hstep hl, drive_of_ok hstep' hl', List.map_cons, List.map_cons, hturns, hturn h hstep]
    exact ⟨rfl, hlike⟩

theorem history_agree (P : Paired x y R) (h : Abreast R cur s cur' s')
    (hq : (∀ t ∈ x.history cur s, t.outcome.Quiet x.plan.policy) ∨
      ∀ t ∈ y.history cur' s', t.outcome.Quiet x.plan.policy) :
    (y.history cur' s').map Turn.place = (x.history cur s).map Turn.place ∧
      (x.drive cur s).1.Like AlikeEnds (y.drive cur' s').1 := by
  obtain ⟨hturns, hlike⟩ := P.turns_agree h hq
  have hplaces := congrArg (List.map Prod.fst) hturns
  rw [List.map_map, List.map_map] at hplaces
  exact ⟨hplaces, hlike⟩

end Paired

theorem quiet_of_actions {policy : ErrorPolicy}
    (h : ∀ step ∈ x.plan.definition.steps.flat, ∀ v c s, (step.action.apply v c s).outcome.Quiet policy)
    (cur : Cursor C) (s : Store ω ι) : ∀ t ∈ x.history cur s, t.outcome.Quiet policy :=
  forall_history (fun _ step _ hstep => h step (x.plan.mem_of_step? hstep) _ _ _) cur s

theorem paired (i : Interpreter ω ι C) (sink : Sink ω) (hR : Indistinct i.plan sink i.sink R)
    (hp : i.plan.policy.prePostAbort = false) :
    Paired (Executor.phased i.plan sink) (i.executor none) R :=
  ⟨rfl, rfl, ⟨_, _, rfl⟩, hp, hR⟩

theorem Paired.abreast_start (P : Paired x y R) (input : C) {c c' : Control C}
    (h : R (c, s) (c', s')) (b b' : Control C) (e e' : Event) :
    Abreast R ⟨0, input, c, 0⟩ (x.emit b e s) ⟨0, input, c', 0⟩ (y.emit b' e' s') :=
  ⟨rfl, rfl, P.emit_left _ _ (P.emit_right _ _ h)⟩

omit [LocalAction ω ι C] in
theorem finish_like (hx : x.expectedOutput = none) (hy : y.expectedOutput = none) (b b' : Control C)
    {e e' : Ending ω ι C (C × Control C)} (h : e.Like AlikeEnds e') (s s' : Store ω ι) :
    (x.finish b (e, s)).1.Like RunResult.Alike (y.finish b' (e', s')).1 := by
  cases h with
  | @completed p q hpq =>
    obtain ⟨v, c⟩ := p
    obtain ⟨v', c'⟩ := q
    obtain ⟨hv, hc⟩ := hpq
    rw [finish_completed hx, finish_completed hy]
    exact .completed ⟨hv, hc.shortCircuited, congrArg Trail.toList hc.errors, hc.timings⟩
  | failed e => exact .failed e
  | panicked t => exact .panicked t
  | blocked h h' => exact .blocked h h'

end Executor

variable {ω ι C : Type} [Host ω] [LocalAction ω ι C]

/-- Every interpreter agrees with the phased run of its plan if pre and post do not abort, no start is
queued, and no step asks for a jump, or fails while failures short-circuit: they begin the same steps in
the same order, and end with the same error or with results that differ in durations alone. -/
theorem interpreter_agrees (i : Interpreter ω ι C) (sink : Sink ω) (input : C) (s s' : Store ω ι)
    {R : Control C × Store ω ι → Control C × Store ω ι → Prop} (hR : Indistinct i.plan sink i.sink R)
    (hs : R (Control.new i.plan.name i.plan.definition.handler s)
      (Control.new i.plan.name i.plan.definition.handler s'))
    (hstart : i.queuedStart = none) (hp : i.plan.policy.prePostAbort = false)
    (hq : (∀ t ∈ (Executor.phased i.plan sink).trace none input s, t.outcome.Quiet i.plan.policy) ∨
      ∀ t ∈ i.turns none none input s', t.outcome.Quiet i.plan.policy) :
    (i.turns none none input s').map Turn.place =
      ((Executor.phased i.plan sink).trace none input s).map Turn.place ∧
    ((Executor.phased i.plan sink).execute none input s).1.Like RunResult.Alike (i.execute input s').1 := by
  have P := Executor.paired i sink hR hp
  let x := Executor.phased i.plan sink
  let y := i.executor none
  have h₀ := P.abreast_start input hs (x.opening none s).1 (y.opening none s').1
    (.pipelineStart none) (.pipelineStart none)
  obtain ⟨hplaces, hlike⟩ := P.history_agree h₀ hq
  have hi : (i.execute input s').1 = (y.execute none input s').1 := by
    simp only [Interpreter.execute, Interpreter.executeFrom, hstart]
    rfl
  refine ⟨hplaces, ?_⟩
  rw [hi]
  exact Executor.finish_like rfl rfl _ _ hlike _ _

/-- A plan whose first step fails and whose second one short-circuits the run: the third is not begun. -/
def haltingPlan : Plan Bench Empty Nat :=
  .ofDefinition ⟨"halting", ⟨false, false⟩, none,
    ⟨[], [step .main 0 refuse, step .main 1 halt, step .main 2 count], [step .post 0 count]⟩⟩
where
  step (ph : Phase) (i : Nat) (a : Action Bench Nat) : BoundStep Bench Empty Nat :=
    ⟨ph, i, none, ph.stepName i none, .shared a, none⟩
  refuse : Action Bench Nat := .pure fun _ => .error (.failed (.new "refused"))
  halt : Action Bench Nat := .controlled fun n _ w => ⟨.next n, ⟨[], true⟩, w⟩
  count : Action Bench Nat := .map (· + 1)

namespace haltingPlan

theorem apply_eq (st : BoundStep Bench Empty Nat) (hst : st ∈ haltingPlan.definition.steps.flat) (v : Nat)
    (c : Control Nat) : ∃ o m, (∀ s, st.action.apply v c s = ⟨o, m, s⟩) ∧ o.Quiet haltingPlan.policy := by
  rcases List.mem_cons.1 hst with rfl | hst
  · exact ⟨_, _, fun s => rfl, rfl⟩
  rcases List.mem_cons.1 hst with rfl | hst
  · exact ⟨_, _, fun s => rfl, trivial⟩
  rcases List.mem_cons.1 hst with rfl | hst
  · exact ⟨_, _, fun s => rfl, trivial⟩
  · rw [List.mem_singleton.1 hst]
    exact ⟨_, _, fun s => rfl, trivial⟩

/-- Benches that differ only in what sinks write. -/
def Same (s s' : Store Bench Empty) : Prop :=
  { s.world with events := [], log := ∅ } = { s'.world with events := [], log := ∅ }

/-- A sink that writes a log. -/
def logging : Sink Bench := .logging .info Bench.logCell

/-- A sink that collects events. -/
def collecting : Sink Bench := .collecting (Bench.eventsOf (.named "events"))

theorem indistinct :
    Indistinct haltingPlan logging collecting (fun a b => a.1 = b.1 ∧ Same a.2 b.2) := by
  refine .of_same (fun s s' h => ?_) (fun s s' hd e h => h) (fun s s' hd e h => h)
    fun st hst v c s s' h => ?_
  · have hc := congrArg Bench.clock h
    exact hc
  · obtain ⟨o, m, ha, -⟩ := apply_eq st hst v c
    rw [ha, ha]
    exact ⟨rfl, rfl, h⟩

/-- An interpreter that collects its events. -/
def interpreter : Interpreter Bench Empty Nat := (Interpreter.new haltingPlan).withSink collecting

end haltingPlan

theorem interpreter_agrees_halting :
    (haltingPlan.interpreter.turns none none 7 (.ofWorld (.new 1))).map Turn.place =
      ((Executor.phased haltingPlan haltingPlan.logging).trace none 7 (.ofWorld (.new 1))).map Turn.place ∧
    ((Executor.phased haltingPlan haltingPlan.logging).execute none 7 (.ofWorld (.new 1))).1.Like
      RunResult.Alike (haltingPlan.interpreter.execute 7 (.ofWorld (.new 1))).1 := by
  have hq : ∀ st ∈ haltingPlan.definition.steps.flat, ∀ v c s,
      (st.action.apply v c s).outcome.Quiet haltingPlan.policy := by
    intro st hst v c s
    obtain ⟨o, m, ha, hq⟩ := haltingPlan.apply_eq st hst v c
    rw [ha]
    exact hq
  exact interpreter_agrees haltingPlan.interpreter haltingPlan.logging 7 (.ofWorld (.new 1))
    (.ofWorld (.new 1)) haltingPlan.indistinct ⟨rfl, rfl⟩ rfl rfl
    (.inl (Executor.quiet_of_actions hq _ _))

end Pipeworks
