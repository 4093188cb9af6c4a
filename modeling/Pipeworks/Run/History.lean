import Mathlib.Data.List.Chain
import Pipeworks.Run.Interpreter
/-!
# Histories of runs

The history of a run is the list of its turns. It is a view of the run: `drive_fst` reads the end of
the run off it. A `Course` is a list of turns that each lead to the next one, whatever their steps
answer and do to the world; every history is one (`course_history`), so what holds of all courses
holds of all runs.
-/

namespace Pipeworks
namespace Turn
variable {ω ι C : Type}

/-- The control that the step was begun with. -/
def begun (t : Turn ω ι C) : Control C := t.cursor.begun t.step

/-- The control as the step left it. -/
def left (t : Turn ω ι C) : Control C := t.begun.absorb t.marks

/-- The control behind the turn. -/
def ended (t : Turn ω ι C) : Control C :=
  match t.led with
  | .ok next => next.control
  | .error _ => t.left

theorem ended_of_ok {t : Turn ω ι C} {next : Cursor C} (hl : t.led = .ok next) :
    t.ended = next.control := by
  rw [ended, hl]

/-- The outcome and the marks are those of the step, applied in a store where the run stood. -/
def PerformedIn [LocalAction ω ι C] (t : Turn ω ι C) (s : Store ω ι) : Prop :=
  t.outcome = (t.step.action.apply t.cursor.value t.begun s).outcome ∧
    t.marks = (t.step.action.apply t.cursor.value t.begun s).marks

/-- The outcome and the marks are those of the step, applied where the run stood. -/
def Performed [LocalAction ω ι C] (t : Turn ω ι C) : Prop := ∃ s, t.PerformedIn s

/-- The end of a run whose last turn this is. -/
def ending (t : Turn ω ι C) : Ending ω ι C (C × Control C) :=
  match t.led with
  | .ok next => .completed (next.value, next.control)
  | .error e => e

end Turn

namespace Executor
variable {ω ι C : Type}

/-- A turn that the executor can take: the step at its cursor, leading where its outcome does. -/
structure Takes (x : Executor ω ι C) (t : Turn ω ι C) : Prop where
  step : x.plan.step? t.cursor.position = some t.step
  leads : x.Leads t.begun (t.cursor.left t.step t.marks) t.outcome t.led

theorem Takes.phasedLead {x : Executor ω ι C} {t : Turn ω ι C} (hx : x.discipline = .phased)
    (ht : x.Takes t) : x.PhasedLead t.begun (t.cursor.left t.step t.marks) t.outcome t.led := by
  have h := ht.leads
  rwa [Leads, hx] at h

theorem Takes.addressedLead {x : Executor ω ι C} {t : Turn ω ι C} {m : Nat} {sleeper : Sleeper ω}
    (hx : x.discipline = .addressed m sleeper) (ht : x.Takes t) :
    x.AddressedLead m sleeper (t.cursor.left t.step t.marks) t.outcome t.led := by
  have h := ht.leads
  rwa [Leads, hx] at h

/-- The turns that a run from a cursor can consist of, up to its end. -/
inductive Course (x : Executor ω ι C) : Cursor C → List (Turn ω ι C) → Prop
  | done {cur : Cursor C} (h : x.plan.step? cur.position = none) : Course x cur []
  | last {t : Turn ω ι C} {e : Ending ω ι C (C × Control C)} (ht : x.Takes t)
    (hl : t.led = .error e) : Course x t.cursor [t]
  | cons {t : Turn ω ι C} {next : Cursor C} {ts : List (Turn ω ι C)} (ht : x.Takes t)
    (hl : t.led = .ok next) (hc : Course x next ts) : Course x t.cursor (t :: ts)

/-- The end of a run that took these turns from a cursor. -/
def endOf (cur : Cursor C) (ts : List (Turn ω ι C)) : Ending ω ι C (C × Control C) :=
  (ts.getLast?.map Turn.ending).getD (.completed (cur.value, cur.control))

@[simp] theorem endOf_nil (cur : Cursor C) :
    endOf cur ([] : List (Turn ω ι C)) = .completed (cur.value, cur.control) := rfl

@[simp] theorem endOf_singleton (cur : Cursor C) (t : Turn ω ι C) : endOf cur [t] = t.ending := rfl

theorem endOf_cons {cur next : Cursor C} {t : Turn ω ι C} (ts : List (Turn ω ι C))
    (hl : t.led = .ok next) : endOf cur (t :: ts) = endOf next ts := by
  cases ts with
  | nil => simp [endOf, Turn.ending, hl]
  | cons u us => simp [endOf, List.getLast?_cons]

namespace Course
variable {x : Executor ω ι C} {cur : Cursor C} {ts : List (Turn ω ι C)}

theorem takes (h : x.Course cur ts) : ∀ t ∈ ts, x.Takes t := by
  induction h with
  | done h => intro t ht; cases ht
  | last ht hl => intro t h; rw [List.mem_singleton.1 h]; exact ht
  | cons ht hl hc ih =>
    intro t h
    rcases List.mem_cons.1 h with rfl | h
    · exact ht
    · exact ih t h

/-- What holds at the start and is kept by every turn that goes on holds at every turn. -/
theorem forall_cursor {I : Cursor C → Prop} (h : x.Course cur ts) (h₀ : I cur)
    (hI : ∀ t next, x.Takes t → t.led = .ok next → I t.cursor → I next) : ∀ t ∈ ts, I t.cursor := by
  induction h with
  | done h => intro t ht; cases ht
  | last ht hl => intro t h; rw [List.mem_singleton.1 h]; exact h₀
  | cons ht hl hc ih =>
    intro t h
    rcases List.mem_cons.1 h with rfl | h
    · exact h₀
    · exact ih (hI _ _ ht hl h₀) t h

/-- What holds at the start and is kept by the turns of the run holds wherever the run comes. It comes to the
end of the plan, or its last turn ends it. -/
theorem reaches {I : Cursor C → Prop} (h : x.Course cur ts) (h₀ : I cur)
    (hI : ∀ t ∈ ts, ∀ next, x.Takes t → t.led = .ok next → I t.cursor → I next) :
    (∀ t ∈ ts, I t.cursor) ∧
      ((∃ last, I last ∧ x.plan.step? last.position = none ∧
          endOf cur ts = .completed (last.value, last.control)) ∨
        ∃ t, ts.getLast? = some t ∧ t.led = .error (endOf cur ts)) := by
  induction h with
  | @done cur h => exact ⟨fun t ht => (List.not_mem_nil ht).elim, .inl ⟨cur, h₀, h, rfl⟩⟩
  | @last t e ht hl =>
    refine ⟨fun u hu => ?_, .inr ⟨t, rfl, ?_⟩⟩
    · rw [List.mem_singleton.1 hu]
      exact h₀
    · rw [endOf_singleton, Turn.ending, hl]
  | @cons t next ts ht hl hc ih =>
    obtain ⟨hts, hend⟩ := ih (hI t List.mem_cons_self next ht hl h₀)
      fun u hu => hI u (List.mem_cons_of_mem t hu)
    refine ⟨List.forall_mem_cons.2 ⟨h₀, hts⟩, ?_⟩
    rw [endOf_cons ts hl]
    refine hend.imp_right fun ⟨u, hu, he⟩ => ⟨u, ?_, he⟩
    rw [List.getLast?_cons, hu]
    rfl

/-- Each turn is at the cursor that the turn before it led to. -/
theorem isChain (h : x.Course cur ts) : ts.IsChain (fun t t' => t.led = .ok t'.cursor) := by
  induction h with
  | done h => exact .nil
  | last ht hl => exact .singleton _
  | cons ht hl hc ih =>
    cases hc with
    | done h => exact .singleton _
    | last ht' hl' => exact List.isChain_cons_cons.2 ⟨hl, ih⟩
    | cons ht' hl' hc' => exact List.isChain_cons_cons.2 ⟨hl, ih⟩

/-- What a turn makes of the cursor behind it, and every later turn keeps, holds at all turns behind. -/
theorem pairwise {K : Turn ω ι C → Cursor C → Prop} (h : x.Course cur ts)
    (h₀ : ∀ t next, x.Takes t → t.led = .ok next → K t next)
    (hK : ∀ u t next, x.Takes t → t.led = .ok next → K u t.cursor → K u next) :
    ts.Pairwise (fun t t' => K t t'.cursor) := by
  induction h with
  | done h => exact .nil
  | last ht hl => exact List.pairwise_singleton _ _
  | cons ht hl hc ih => exact .cons (hc.forall_cursor (h₀ _ _ ht hl) (hK _)) ih

end Course

variable [Host ω]

theorem finish_completed {x : Executor ω ι C} {value : C} {begun c : Control C} {s : Store ω ι}
    (h : x.expectedOutput = none) :
    (x.finish begun (.completed (value, c), s)).1 = .completed (c.result value s) := by
  simp only [finish, h]; rfl

theorem finish_failed (x : Executor ω ι C) (begun : Control C) (e : EngineError) (s : Store ω ι) :
    (x.finish begun (.failed e, s)).1 = .failed e := rfl

theorem finish_eq_failed {x : Executor ω ι C} {begun : Control C} {s : Store ω ι} {err : EngineError}
    {e : Ending ω ι C (C × Control C)} (h : (x.finish begun (e, s)).1 = .failed err) :
    e = .failed err ∨ ∃ p ty, err = .jump (.outputTypeMismatch p ty) := by
  cases e with
  | completed a =>
    simp only [finish] at h
    split at h
    · exact .inr ⟨_, _, (Ending.failed.inj h).symm⟩
    · cases h
  | failed e => exact .inl (congrArg _ (Ending.failed.inj h))
  | panicked t => cases h
  | blocked held => cases h

/-- A run that completes has come to the end of its steps. -/
theorem finish_eq_completed {x : Executor ω ι C} {begun : Control C} {s : Store ω ι} {r : RunResult C}
    {e : Ending ω ι C (C × Control C)} (h : (x.finish begun (e, s)).1 = .completed r) :
    ∃ v c, e = .completed (v, c) ∧ r = c.result v s := by
  cases e with
  | completed a =>
    simp only [finish] at h
    split at h
    · cases h
    · exact ⟨a.1, a.2, rfl, (Ending.completed.inj h).symm⟩
  | failed e => cases h
  | panicked t => cases h
  | blocked held => cases h

variable [LocalAction ω ι C]

/-- The turns of the run from a cursor, in the order they are taken. -/
def history (x : Executor ω ι C) (cur : Cursor C) (s : Store ω ι) : List (Turn ω ι C) :=
  match _hstep : x.plan.step? cur.position with
  | none => []
  | some step =>
    match _hled : (x.turn cur step s).1.led with
    | .error _ => [(x.turn cur step s).1]
    | .ok next => (x.turn cur step s).1 :: history x next (x.turn cur step s).2
termination_by x.measure cur
decreasing_by
  have hpos := x.plan.lt_size_of_step? _hstep
  exact (follows_turn hpos _hled).decreases hpos

/-- The turns of the run on a context. A start label that no step has begins nothing. -/
def trace (x : Executor ω ι C) (start : Option String) (input : C) (s : Store ω ι) :
    List (Turn ω ι C) :=
  let (control, s) := x.opening start s
  match x.startAt start input control with
  | .error _ => []
  | .ok cur => x.history cur s

variable {x : Executor ω ι C} {cur next : Cursor C} {step : BoundStep ω ι C} {s : Store ω ι}
  {e : Ending ω ι C (C × Control C)}

theorem history_of_none (h : x.plan.step? cur.position = none) : x.history cur s = [] := by
  rw [history]; split
  · rfl
  · simp_all

theorem history_of_error (h : x.plan.step? cur.position = some step)
    (hl : (x.turn cur step s).1.led = .error e) : x.history cur s = [(x.turn cur step s).1] := by
  rw [history]; split
  · simp_all
  · obtain rfl : step = _ := Option.some.inj (h.symm.trans ‹_›)
    split
    · rfl
    · simp_all

theorem history_of_ok (h : x.plan.step? cur.position = some step)
    (hl : (x.turn cur step s).1.led = .ok next) :
    x.history cur s = (x.turn cur step s).1 :: x.history next (x.turn cur step s).2 := by
  rw [history]; split
  · simp_all
  · obtain rfl : step = _ := Option.some.inj (h.symm.trans ‹_›)
    split
    · simp_all
    · obtain rfl : next = _ := Except.ok.inj (hl.symm.trans ‹_›)
      rfl

theorem turn_mem_history (h : x.plan.step? cur.position = some step) :
    (x.turn cur step s).1 ∈ x.history cur s := by
  cases hl : (x.turn cur step s).1.led with
  | error e => rw [history_of_error h hl]; exact List.mem_singleton_self _
  | ok next => rw [history_of_ok h hl]; exact List.mem_cons_self

theorem head?_history (h : x.plan.step? cur.position = some step) :
    (x.history cur s).head? = some (x.turn cur step s).1 := by
  cases hl : (x.turn cur step s).1.led with
  | error e => rw [history_of_error h hl]; rfl
  | ok next => rw [history_of_ok h hl]; rfl

theorem drive_of_none (h : x.plan.step? cur.position = none) :
    x.drive cur s = (.completed (cur.value, cur.control), s) := by
  rw [drive]; split
  · rfl
  · simp_all

theorem drive_of_error (h : x.plan.step? cur.position = some step)
    (hl : (x.turn cur step s).1.led = .error e) : x.drive cur s = (e, (x.turn cur step s).2) := by
  rw [drive]; split
  · simp_all
  · obtain rfl : step = _ := Option.some.inj (h.symm.trans ‹_›)
    split <;> simp_all

theorem drive_of_ok (h : x.plan.step? cur.position = some step)
    (hl : (x.turn cur step s).1.led = .ok next) :
    x.drive cur s = x.drive next (x.turn cur step s).2 := by
  rw [drive]; split
  · simp_all
  · obtain rfl : step = _ := Option.some.inj (h.symm.trans ‹_›)
    split <;> simp_all

theorem takes_turn (h : x.plan.step? cur.position = some step) : x.Takes (x.turn cur step s).1 :=
  ⟨h, x.leads_turn cur step s⟩

/-- What holds of all turns that the executor takes at its steps holds of the turns of a run. -/
theorem forall_history {P : Turn ω ι C → Prop}
    (h : ∀ cur step s, x.plan.step? cur.position = some step → P (x.turn cur step s).1) (cur : Cursor C)
    (s : Store ω ι) : ∀ t ∈ x.history cur s, P t := by
  fun_induction history x cur s with
  | case1 cur s hn => intro t ht; cases ht
  | case2 cur s step hstep e hl =>
    intro t ht
    rw [List.mem_singleton.1 ht]
    exact h cur step s hstep
  | case3 cur s step hstep next hl ih =>
    intro t ht
    rcases List.mem_cons.1 ht with rfl | ht
    · exact h cur step s hstep
    · exact ih t ht

theorem course_history (x : Executor ω ι C) (cur : Cursor C) (s : Store ω ι) :
    x.Course cur (x.history cur s) := by
  fun_induction history x cur s with
  | case1 cur s h => exact .done h
  | case2 cur s step h e hl => exact .last (takes_turn h) hl
  | case3 cur s step h next hl ih => exact .cons (takes_turn h) hl ih

theorem drive_fst (x : Executor ω ι C) (cur : Cursor C) (s : Store ω ι) :
    (x.drive cur s).1 = endOf cur (x.history cur s) := by
  fun_induction history x cur s with
  | case1 cur s h => rw [drive_of_none h]; rfl
  | case2 cur s step h e hl => rw [drive_of_error h hl, endOf_singleton, Turn.ending, hl]
  | case3 cur s step h next hl ih => rw [drive_of_ok h hl, ih, endOf_cons _ hl]

/-! ### Runs on a context -/

variable {start : Option String} {input : C}

/-- A run with a start takes the turns of a course from it, and ends as they do. -/
theorem course_trace (h : x.startAt start input (x.opening start s).1 = .ok cur) :
    x.Course cur (x.trace start input s) ∧ ∃ t, x.execute start input s =
      x.finish (x.opening start s).1 (endOf cur (x.trace start input s), t) := by
  have ht : x.trace start input s = x.history cur (x.opening start s).2 := by
    simp only [trace, h]
  refine ⟨ht ▸ x.course_history cur _, (x.drive cur (x.opening start s).2).2, ?_⟩
  rw [ht, ← drive_fst]
  simp only [execute, h]

theorem forall_trace {P : Turn ω ι C → Prop}
    (h : ∀ cur step s, x.plan.step? cur.position = some step → P (x.turn cur step s).1)
    (start : Option String) (input : C) (s : Store ω ι) : ∀ t ∈ x.trace start input s, P t := by
  simp only [trace]
  split
  · exact fun t ht => (List.not_mem_nil ht).elim
  · exact forall_history h _ _

theorem performed_trace (x : Executor ω ι C) (start : Option String) (input : C) (s : Store ω ι) :
    ∀ t ∈ x.trace start input s, t.Performed :=
  forall_trace (fun _ _ _ _ => ⟨_, rfl, rfl⟩) start input s

theorem trace_of_ok (h : x.startAt start input (x.opening start s).1 = .ok cur) :
    x.trace start input s = x.history cur (x.opening start s).2 ∧
      x.execute start input s = x.finish (x.opening start s).1 (x.drive cur (x.opening start s).2) := by
  simp only [trace, execute, h, and_self]

theorem trace_of_error {e : EngineError} (h : x.startAt start input (x.opening start s).1 = .error e) :
    x.trace start input s = [] ∧ (x.execute start input s).1 = .failed e := by
  constructor
  · simp only [trace, h]
  · simp only [execute, h]; rfl

omit [Host ω] [LocalAction ω ι C] in
theorem control_of_startAt {c : Control C} (h : x.startAt start input c = .ok cur) : cur.control = c := by
  unfold startAt at h
  split at h
  · obtain rfl := Except.ok.inj h
    rfl
  · split at h
    · cases h
    · obtain rfl := Except.ok.inj h
      rfl

omit [Host ω] [LocalAction ω ι C] in
@[simp] theorem startAt_none (x : Executor ω ι C) (input : C) (c : Control C) :
    x.startAt none input c = .ok ⟨0, input, c, 0⟩ := rfl

omit [Host ω] [LocalAction ω ι C] in
theorem startAt_of_indexOf? {label : String} {n : Nat} (h : x.plan.indexOf? label = some n) (input : C)
    (c : Control C) : x.startAt (some label) input c = .ok ⟨n, input, c, 0⟩ := by
  simp only [startAt, h]

omit [Host ω] [LocalAction ω ι C] in
theorem startAt_of_unknown {label : String} (h : x.plan.indexOf? label = none) (input : C) (c : Control C) :
    x.startAt (some label) input c = .error (.jump (.unknownLabel x.plan.name label)) := by
  simp only [startAt, h]

omit [Host ω] [LocalAction ω ι C] in
theorem startAt_cases (x : Executor ω ι C) (start : Option String) (input : C) (c : Control C) :
    (∃ n, x.startAt start input c = .ok ⟨n, input, c, 0⟩) ∨
      ∃ label, x.startAt start input c = .error (.jump (.unknownLabel x.plan.name label)) := by
  unfold startAt
  split
  · exact .inl ⟨0, rfl⟩
  · split
    · exact .inr ⟨_, rfl⟩
    · exact .inl ⟨_, rfl⟩

theorem head?_trace_of_startAt (h : x.startAt start input (x.opening start s).1 = .ok cur)
    (hs : x.plan.step? cur.position = some step) :
    ∃ t, (x.trace start input s).head? = some t ∧ t.step = step ∧ t.cursor = cur := by
  have ht : x.trace start input s = x.history cur (x.opening start s).2 := by
    simp only [trace, h]
  rw [ht]
  exact ⟨_, head?_history hs, rfl, rfl⟩

theorem head?_trace {label : String} {n : Nat} (hl : x.plan.indexOf? label = some n)
    (hs : x.plan.step? n = some step) :
    ∃ t, (x.trace (some label) input s).head? = some t ∧ t.step = step ∧ t.cursor.value = input := by
  obtain ⟨t, ht, hstep, hcur⟩ := head?_trace_of_startAt (startAt_of_indexOf? hl input _) hs
  exact ⟨t, ht, hstep, congrArg Cursor.value hcur⟩

theorem head?_trace_none (x : Executor ω ι C) (input : C) (s : Store ω ι) :
    ((x.trace none input s).head?.map fun t => (t.step, t.cursor.value)) =
      x.plan.definition.steps.flat.head?.map (·, input) := by
  have hflat : x.plan.definition.steps.flat.head? = x.plan.step? 0 := by
    rw [x.plan.step?_eq, List.head?_eq_getElem?]
  rw [hflat]
  cases hs : x.plan.step? 0 with
  | none =>
    have ht : x.trace none input s = [] := by
      simp only [trace, startAt_none]
      exact history_of_none hs
    rw [ht]
    rfl
  | some step =>
    obtain ⟨t, ht, rfl, hcur⟩ := head?_trace_of_startAt (x.startAt_none input (x.opening none s).1) hs
    rw [ht]
    simp [hcur]

end Executor

/-- The turns of a run of an interpreter, from a label or from the first step. -/
def Interpreter.turns {ω ι C : Type} [Host ω] [LocalAction ω ι C] (i : Interpreter ω ι C)
    (start : Option String) (expectedOutput : Option (Marker C)) (input : C) (s : Store ω ι) :
    List (Turn ω ι C) :=
  (i.executor expectedOutput).trace start input s

end Pipeworks
