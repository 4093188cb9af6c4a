import Pipeworks.Proofs.Agreement
import Pipeworks.Proofs.Budget
import Pipeworks.Run.Onward

/-!
# The logs of a run

`logs_exact`: a run that completes has one timing for every step it began, and the errors that its steps
recorded, each step's failure behind its own. `Takes.logs` says what one turn adds to the logs, and
`Course.logs` adds it up. If nothing stops or turns the run, that is every step of the plan, once
(`Course.steps_of_plain`).
-/

namespace Pipeworks

/-- The step asked for no jump and left no marks. -/
structure Turn.Plain {ω ι C : Type} (t : Turn ω ι C) : Prop where
  outcome : t.outcome.jumps = false
  marks : t.marks = .none

/-- The logs of `c'` are those of `c` with these entries behind them. -/
structure Control.Extends {C : Type} (c c' : Control C) (timings : List Timing)
    (errors : List RecordedError) : Prop where
  pipeline : c'.pipeline = c.pipeline
  timings : c'.timings.toList.map Timing.untimed = c.timings.toList.map Timing.untimed ++ timings
  errors : c'.errors.toList = c.errors.toList ++ errors

namespace Control.Extends
variable {C : Type} {a b c : Control C} {l l' : List Timing} {m m' : List RecordedError}

theorem refl (c : Control C) : c.Extends c [] [] :=
  ⟨rfl, (List.append_nil _).symm, (List.append_nil _).symm⟩

theorem trans (h : a.Extends b l m) (h' : b.Extends c l' m') : a.Extends c (l ++ l') (m ++ m') := by
  refine ⟨h'.pipeline.trans h.pipeline, ?_, ?_⟩
  · rw [h'.timings, h.timings, List.append_assoc]
  · rw [h'.errors, h.errors, List.append_assoc]

theorem shortCircuit (h : a.Extends b l m) : a.Extends b.shortCircuit l m :=
  ⟨h.pipeline, h.timings, h.errors⟩

end Control.Extends

namespace Executor
variable {ω ι C : Type}

/-- An error of the run at the place of a step. -/
def errorAt (x : Executor ω ι C) (step : BoundStep ω ι C) (e : ActionError) : RecordedError :=
  ⟨x.plan.name, step.phase, step.index, step.name, e⟩

/-- What a turn adds to the log of timings, without its duration. -/
def timing (x : Executor ω ι C) (t : Turn ω ι C) : Timing :=
  ⟨t.step.phase, t.step.index, t.step.name, 0, x.succeeds t.outcome⟩

/-- What a turn adds to the log of errors: what the step recorded, then its failure. -/
def logged (x : Executor ω ι C) (t : Turn ω ι C) : List RecordedError :=
  (t.marks.recorded ++ (x.failure? t.outcome).toList).map (x.errorAt t.step)

variable {x : Executor ω ι C} {cur next : Cursor C} {t : Turn ω ι C} {ts : List (Turn ω ι C)}
  {step : BoundStep ω ι C} {a : C × Control C}

theorem errorHere_begun (hp : cur.control.pipeline = x.plan.name) (step : BoundStep ω ι C) :
    (cur.begun step).errorHere = x.errorAt step := by
  funext e
  simp only [Control.errorHere, errorAt, ← hp]
  rfl

theorem extends_of_answer (hp : t.cursor.control.pipeline = x.plan.name) (hs : x.succeeds t.outcome = true)
    (d : Nanos) : t.cursor.control.Extends (t.left.recordTiming d true) [x.timing t] (x.logged t) := by
  refine ⟨rfl, ?_, ?_⟩
  · simp only [Control.recordTiming, Trail.toList_push, List.map_append, timing, hs]
    rfl
  · have he : t.begun.errorHere = x.errorAt t.step := errorHere_begun hp t.step
    simp only [Control.recordTiming, Turn.left, Control.absorb, Trail.toList_pushAll, he, logged,
      failure?_of_succeeds hs]
    simp [Turn.begun, Cursor.begun, Control.beginStep]

theorem extends_of_failure (hp : t.cursor.control.pipeline = x.plan.name) {e : ActionError}
    (hs : x.succeeds t.outcome = false) (hf : x.failure? t.outcome = some e) (d : Nanos) :
    t.cursor.control.Extends (noteFailure (t.cursor.left t.step t.marks) d e).2 [x.timing t] (x.logged t) := by
  refine ⟨rfl, ?_, ?_⟩
  · simp only [noteFailure, Control.recordError, Control.recordTiming, Trail.toList_push, List.map_append,
      timing, hs]
    rfl
  · have he : t.begun.errorHere = x.errorAt t.step := errorHere_begun hp t.step
    have hlast : (t.left.recordTiming d false).errorHere e = x.errorAt t.step e := by
      rw [← he]
      rfl
    have hleft : t.left.errors.toList =
        t.cursor.control.errors.toList ++ t.marks.recorded.map (x.errorAt t.step) := by
      rw [Turn.left, Control.absorb, Trail.toList_pushAll, he]
      rfl
    calc (noteFailure (t.cursor.left t.step t.marks) d e).2.errors.toList
        = t.left.errors.toList ++ [x.errorAt t.step e] := by rw [← hlast, ← Trail.toList_push]; rfl
      _ = t.cursor.control.errors.toList ++ x.logged t := by
        rw [hleft, logged, hf, List.map_append, List.append_assoc]
        rfl

/-- A turn that leads on adds one timing to the logs, and its errors. -/
theorem Takes.logs (ht : x.Takes t) (hl : t.led = .ok next)
    (hp : t.cursor.control.pipeline = x.plan.name) :
    t.cursor.control.Extends next.control [x.timing t] (x.logged t) := by
  cases ht.goesOn hl with
  | next d ho =>
    rw [onward_control]
    exact extends_of_answer hp (by simp [succeeds, ho]) d
  | failed d hs hf hc =>
    have hnoted := extends_of_failure hp hs hf d
    rw [onward_control, hc]
    split
    · exact hnoted.shortCircuit
    · exact hnoted
  | jumped d hs => exact extends_of_answer hp hs d

theorem Takes.not_completed (ht : x.Takes t) : t.led ≠ .error (.completed a) := by
  obtain ⟨cur, step, o, m, led⟩ := t
  rintro rfl
  cases hx : x.discipline with
  | phased =>
    have h : x.PhasedLead (cur.begun step) (cur.left step m) o _ := ht.phasedLead hx
    cases h
  | addressed k sleeper =>
    have h : x.AddressedLead k sleeper (cur.left step m) o _ := ht.addressedLead hx
    cases h

theorem Course.logs (h : x.Course cur ts) (hp : cur.control.pipeline = x.plan.name)
    (he : endOf cur ts = .completed a) :
    cur.control.Extends a.2 (ts.map x.timing) (ts.flatMap x.logged) := by
  induction h with
  | done h =>
    obtain rfl := Ending.completed.inj he
    exact .refl _
  | @last t e ht hl =>
    rw [endOf_singleton, Turn.ending, hl] at he
    exact absurd (hl.trans (congrArg _ he)) ht.not_completed
  | @cons t next ts ht hl hc ih =>
    rw [endOf_cons ts hl] at he
    -- The turn keeps the name of the pipeline, which the entries of the later ones carry.
    have hturn := ht.logs hl hp
    have hrest := ih (hturn.pipeline.trans hp) he
    simpa using hturn.trans hrest

/-! ### Runs that nothing stops or turns -/

theorem Takes.next_of_plain (ht : x.Takes t) (hl : t.led = .ok next) (hplain : t.Plain)
    (hpolicy : x.plan.policy = ⟨false, false⟩) (hf : t.cursor.control.shortCircuited = false) :
    next.position = t.cursor.position + 1 ∧ next.control.shortCircuited = false := by
  have hleft : t.left.shortCircuited = false := by
    rw [Turn.left, hplain.marks, Control.absorb_none]
    exact hf
  have honward (v : C) {c : Control C} (hc : c.shortCircuited = false) :
      (x.onward t v c).position = t.cursor.position + 1 ∧ (x.onward t v c).control.shortCircuited = false := by
    rw [onward_position _ _ (by rw [hpolicy]), hc, x.plan.advance_false, onward_control]
    exact ⟨rfl, hc⟩
  cases ht.goesOn hl with
  | next d ho => exact honward _ hleft
  | failed d hs hfail hc =>
    rw [hpolicy] at hc
    exact honward _ (by rw [hc]; exact hleft)
  | jumped d hs ho =>
    have hno := hplain.outcome
    rw [ho] at hno
    cases hno

/-- A run that completes and has taken plain turns only has begun every step from its start on. -/
theorem Course.steps_of_plain (h : x.Course cur ts) (hpolicy : x.plan.policy = ⟨false, false⟩)
    (hf : cur.control.shortCircuited = false) (hplain : ∀ t ∈ ts, t.Plain)
    (he : endOf cur ts = .completed a) : ts.map (·.step) = x.plan.stepsFrom cur.position := by
  induction h with
  | done h => rw [x.plan.stepsFrom_of_none h, List.map_nil]
  | @last t e ht hl =>
    rw [endOf_singleton, Turn.ending, hl] at he
    exact absurd (hl.trans (congrArg _ he)) ht.not_completed
  | @cons t next ts ht hl hc ih =>
    rw [endOf_cons ts hl] at he
    obtain ⟨hpos, hflag⟩ := ht.next_of_plain hl (hplain t List.mem_cons_self) hpolicy hf
    have hrest := ih hflag (fun u hu => hplain u (List.mem_cons_of_mem t hu)) he
    rw [x.plan.stepsFrom_of_some ht.step, ← hpos, ← hrest, List.map_cons]

theorem failure?_of_not_jumps {o : Outcome C} (h : o.jumps = false) : x.failure? o = o.failed? := by
  cases hx : x.discipline with
  | addressed k sleeper => simp only [failure?, hx]
  | phased =>
    simp only [failure?, hx]
    cases o using Outcome.byFault with
    | jump signal => cases h
    | next v | failed e | abort e | panicked t | blocked => rfl

theorem logged_of_plain (hplain : t.Plain) :
    x.logged t = (t.outcome.failed?.map (x.errorAt t.step)).toList := by
  rw [logged, hplain.marks, failure?_of_not_jumps hplain.outcome]
  cases t.outcome.failed? <;> rfl

/-! ### Logs of runs on a context -/

variable [Host ω] [LocalAction ω ι C]

theorem course_of_completed {start : Option String} {input : C} {s : Store ω ι} {r : RunResult C}
    (h : (x.execute start input s).1 = .completed r) :
    ∃ cur v c, ∃ u : Store ω ι, x.startAt start input (x.opening start s).1 = .ok cur ∧
      x.Course cur (x.trace start input s) ∧ endOf cur (x.trace start input s) = .completed (v, c) ∧
      r = c.result v u := by
  cases hstart : x.startAt start input (x.opening start s).1 with
  | error e =>
    rw [(trace_of_error hstart).2] at h
    cases h
  | ok cur =>
    obtain ⟨hc, u, hrun⟩ := course_trace hstart
    rw [hrun] at h
    obtain ⟨v, c, he, hr⟩ := finish_eq_completed h
    exact ⟨cur, v, c, u, rfl, hc, he, hr⟩

theorem logs_of_completed {start : Option String} {input : C} {s : Store ω ι} {r : RunResult C}
    (h : (x.execute start input s).1 = .completed r) :
    r.timings.map Timing.untimed = (x.trace start input s).map x.timing ∧
      r.errors = (x.trace start input s).flatMap x.logged := by
  obtain ⟨cur, v, c, u, hstart, hcourse, hend, rfl⟩ := course_of_completed h
  have hcontrol : cur.control = (x.opening start s).1 := control_of_startAt hstart
  have hlogs := hcourse.logs (by rw [hcontrol]; rfl) hend
  rw [hcontrol] at hlogs
  exact ⟨hlogs.timings, hlogs.errors⟩

end Executor

variable {ω ι C : Type} [Host ω] [LocalAction ω ι C]

/-- The logs of a run that completes. The log of timings has one entry for each turn, with the place and
the name of its step and whether it succeeded; the log of errors has, turn by turn, what the step recorded
and then its failure, each at the place of the step. What a turn holds of its step is what the action of
the step did. A run from the first step under the most lenient policy, whose steps ask for no jump and leave no
marks, begins every step of the plan once, and its log of errors has one entry for each step that failed. -/
theorem logs_exact (x : Executor ω ι C) (start : Option String) (input : C) (s : Store ω ι)
    {r : RunResult C} (h : (x.execute start input s).1 = .completed r) :
    r.timings.map Timing.untimed = (x.trace start input s).map x.timing ∧
    r.errors = (x.trace start input s).flatMap x.logged ∧
    (∀ t ∈ x.trace start input s, t.Performed) ∧
    (start = none → x.plan.policy = ⟨false, false⟩ → (∀ t ∈ x.trace start input s, t.Plain) →
      (x.trace start input s).map (·.step) = x.plan.definition.steps.flat ∧
      r.errors = (x.trace start input s).filterMap fun t => t.outcome.failed?.map (x.errorAt t.step)) := by
  obtain ⟨htimings, herrors⟩ := Executor.logs_of_completed h
  refine ⟨htimings, herrors, x.performed_trace start input s, fun hnone hpolicy hplain => ⟨?_, ?_⟩⟩
  · obtain ⟨cur, v, c, u, hstart, hcourse, hend, -⟩ := Executor.course_of_completed h
    subst hnone
    obtain rfl : (⟨0, input, (x.opening none s).1, 0⟩ : Cursor C) = cur := Except.ok.inj hstart
    rw [hcourse.steps_of_plain hpolicy rfl hplain hend, Plan.stepsFrom_zero]
  · rw [herrors, List.filterMap_eq_flatMap_toList]
    exact List.flatMap_congr fun t ht => Executor.logged_of_plain (hplain t ht)

/-- A plan whose first step records an error and asks for a jump over the second one, to one that fails. -/
def relayPlan : Plan Bench Empty Nat :=
  .ofDefinition ⟨"relay", ⟨false, false⟩, none,
    ⟨[], [step 0 none hop, step 1 none haltingPlan.count, step 2 (some "end") haltingPlan.refuse], []⟩⟩
where
  step (i : Nat) (label : Option String) (a : Action Bench Nat) : BoundStep Bench Empty Nat :=
    ⟨.main, i, label, Phase.stepName .main i label, .shared a, none⟩
  hop : Action Bench Nat :=
    .controlled fun _ _ w => ⟨.fault (.jump (.now "end")), ⟨[.new "slow"], false⟩, w⟩

theorem logs_exact_relay :
    let x := (Interpreter.new relayPlan).executor none
    let s : Store Bench Empty := .ofWorld (.new 1)
    ∃ r, (x.execute none 7 s).1 = .completed r ∧
      r.timings.map Timing.untimed = (x.trace none 7 s).map x.timing ∧
      r.errors = (x.trace none 7 s).flatMap x.logged ∧
      (x.trace none 7 s).map (·.cursor.position) = [0, 2] := by
  intro x s
  -- The run stands at the first step, then at the third one, then at the end of the plan.
  let u := (x.opening none s).2
  let first : Cursor Nat := ⟨0, 7, (x.opening none s).1, 0⟩
  let hop := relayPlan.step 0 none relayPlan.hop
  let refuse := relayPlan.step 2 (some "end") haltingPlan.refuse
  let third : Cursor Nat :=
    ⟨2, 7, (first.left hop ⟨[.new "slow"], false⟩).control.recordTiming 0 true, 1⟩
  let failed := Executor.noteFailure (third.left refuse .none) 0 (.new "refused")
  let last : Cursor Nat := ⟨3, failed.1, failed.2, 1⟩
  have hstart : x.startAt none 7 (x.opening none s).1 = .ok first := rfl
  have hl₁ : (x.turn first hop u).1.led = .ok third := rfl
  have hl₃ : (x.turn third refuse (x.turn first hop u).2).1.led = .ok last := rfl
  have hT : x.trace none 7 s =
      [(x.turn first hop u).1, (x.turn third refuse (x.turn first hop u).2).1] := by
    show x.history first u = _
    rw [Executor.history_of_ok rfl hl₁, Executor.history_of_ok rfl hl₃, Executor.history_of_none rfl]
  obtain ⟨-, w, hrun⟩ := Executor.course_trace hstart
  have hend : Executor.endOf first (x.trace none 7 s) = .completed (last.value, last.control) := by
    rw [hT, Executor.endOf_cons _ hl₁, Executor.endOf_cons _ hl₃, Executor.endOf_nil]
  have hr : (x.execute none 7 s).1 = .completed (last.control.result last.value w) := by
    rw [hrun, hend, Executor.finish_completed rfl]
  obtain ⟨htimings, herrors, -⟩ := logs_exact x none 7 s hr
  refine ⟨_, hr, htimings, herrors, ?_⟩
  rw [hT]
  rfl

end Pipeworks
