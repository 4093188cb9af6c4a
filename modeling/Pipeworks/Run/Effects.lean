import Pipeworks.Run.Onward

/-!
# What runs do

A run changes the world in three ways: it reports events, it applies its steps, and it waits before delayed
jumps. These are its effects. `execute_snd`: the store behind a run is what its effects make of the store before
it, and but for durations the effects are read off the turns of the run and off its end.
-/

namespace Pipeworks

/-- The event without its duration. -/
def Event.untimed : Event → Event
  | stepEnd position label _ success => stepEnd position label 0 success
  | pipelineEnd success _ error => pipelineEnd success 0 error
  | e => e

/-- One thing that a run does to the world. -/
inductive Effect (ω ι C : Type) where
  | report (e : Event)
  | apply (step : BoundStep ω ι C) (value : C) (control : Control C)
  | wait (d : Nanos)

namespace Effect
variable {ω ι C : Type}

def untimed : Effect ω ι C → Effect ω ι C
  | report e => report e.untimed
  | d => d

def event? : Effect ω ι C → Option Event
  | report e => some e
  | _ => none

/-- What is reported by a list of effects. -/
def events (ds : List (Effect ω ι C)) : List Event := ds.filterMap event?

theorem events_append (ds ds' : List (Effect ω ι C)) : events (ds ++ ds') = events ds ++ events ds' :=
  List.filterMap_append

@[simp] theorem events_reports (es : List Event) : events (es.map (report : Event → Effect ω ι C)) = es := by
  induction es with
  | nil => rfl
  | cons e es ih => exact congrArg (e :: ·) ih

@[simp] theorem events_waits (l : List Nanos) : events (l.map (wait : Nanos → Effect ω ι C)) = [] := by
  induction l with
  | nil => rfl
  | cons d l ih => exact ih

theorem untimed_reports (es : List Event) :
    (es.map report).map untimed = (es.map Event.untimed).map (report : Event → Effect ω ι C) := by
  rw [List.map_map, List.map_map]
  rfl

theorem untimed_waits (l : List Nanos) :
    (l.map wait).map untimed = l.map (wait : Nanos → Effect ω ι C) := by
  rw [List.map_map]
  rfl

theorem events_flatMap {α : Type} (f : α → List (Effect ω ι C)) (l : List α) :
    events (l.flatMap f) = l.flatMap fun a => events (f a) :=
  List.filterMap_flatMap ..

theorem events_untimed (ds : List (Effect ω ι C)) :
    events (ds.map untimed) = (events ds).map Event.untimed := by
  induction ds with
  | nil => rfl
  | cons d ds ih =>
    cases d with
    | report e => exact congrArg (e.untimed :: ·) ih
    | apply step value control => exact ih
    | wait d => exact ih

end Effect

/-- What is reported at the end of a run that took `d`. -/
def Ending.report {ω ι C : Type} (d : Nanos) : Ending ω ι C (RunResult C) → List Event
  | completed r => [.pipelineEnd r.errors.isEmpty d none]
  | failed e => [.pipelineEnd false d (some e.message)]
  | panicked _ => []
  | blocked _ => []

namespace Executor
variable {ω ι C : Type}

/-- A request to jump passes the checks of the budget, of its label and of the region there. -/
def admits (x : Executor ω ι C) (jumps : Nat) (signal : JumpSignal) : Bool :=
  decide (jumps < x.discipline.budget) &&
    (x.plan.indexOf? signal.label).any fun target => decide (x.plan.preBoundary ≤ target)

/-- The request of a step that is followed. -/
def followed? (x : Executor ω ι C) (cur : Cursor C) : Outcome C → Option JumpSignal
  | .answered (.error (.jump signal)) => if x.admits cur.jumps signal then some signal else none
  | _ => none

/-- What is reported behind a step that took `d`. -/
def closing (x : Executor ω ι C) (step : BoundStep ω ι C) (cur : Cursor C) (d : Nanos) (o : Outcome C) :
    List Event :=
  match x.discipline, o with
  | _, .answered (.ok _) => [.stepEnd cur.position step.displayLabel d true]
  | .addressed _ _, .answered (.error (.jump signal)) =>
    .stepEnd cur.position step.displayLabel d true ::
      (x.followed? cur (.answered (.error (.jump signal)))).toList.map fun signal =>
        .jump step.displayLabel signal.label signal.delayMillis
  | .addressed _ _, .answered (.error f) => [.stepError cur.position step.displayLabel f.display]
  | .phased, .answered (.error f) =>
    match f.asActionError with
    | .ok e => [.stepError cur.position step.displayLabel e.display,
        .stepEnd cur.position step.displayLabel d false]
    | .error e => [.stepError cur.position step.displayLabel e.message]
  | _, .panicked _ => []
  | _, .blocked => []

def waits (x : Executor ω ι C) (cur : Cursor C) (o : Outcome C) : List Nanos :=
  match x.discipline with
  | .phased => []
  | .addressed _ _ => (x.followed? cur o).toList.map (·.delay)

/-- What a run does once a step has come back. -/
def aftermath (x : Executor ω ι C) (step : BoundStep ω ι C) (cur : Cursor C) (d : Nanos) (o : Outcome C) :
    List (Effect ω ι C) :=
  (x.closing step cur d o).map .report ++ (x.waits cur o).map .wait

/-- What a run does in a turn whose step took `d`. -/
def effects (x : Executor ω ι C) (d : Nanos) (t : Turn ω ι C) : List (Effect ω ι C) :=
  .report (.stepStart t.cursor.position t.step.displayLabel) :: .apply t.step t.cursor.value t.begun ::
    x.aftermath t.step t.cursor d t.outcome

/-- What a run reports in a turn, without durations. -/
def events (x : Executor ω ι C) (t : Turn ω ι C) : List Event :=
  .stepStart t.cursor.position t.step.displayLabel :: x.closing t.step t.cursor 0 t.outcome

variable {x : Executor ω ι C}

theorem events_effects (t : Turn ω ι C) : Effect.events (x.effects 0 t) = x.events t := by
  have h : Effect.events (x.aftermath t.step t.cursor 0 t.outcome) = x.closing t.step t.cursor 0 t.outcome := by
    rw [aftermath, Effect.events_append, Effect.events_reports, Effect.events_waits, List.append_nil]
  exact congrArg (Event.stepStart t.cursor.position t.step.displayLabel :: ·) h

theorem events_turns (ts : List (Turn ω ι C)) :
    Effect.events (ts.flatMap (x.effects 0)) = ts.flatMap x.events := by
  rw [Effect.events_flatMap]
  exact List.flatMap_congr fun t _ => events_effects t

theorem untimed_closing (step : BoundStep ω ι C) (cur : Cursor C) (d : Nanos) (o : Outcome C) :
    (x.closing step cur d o).map Event.untimed = x.closing step cur 0 o := by
  unfold closing
  split
  · rfl
  · simp only [List.map_cons, List.map_map]
    rfl
  · rfl
  · split <;> rfl
  · rfl
  · rfl

theorem untimed_effects (d : Nanos) (t : Turn ω ι C) : (x.effects d t).map Effect.untimed = x.effects 0 t := by
  have h : (x.aftermath t.step t.cursor d t.outcome).map Effect.untimed =
      x.aftermath t.step t.cursor 0 t.outcome := by
    rw [aftermath, List.map_append, Effect.untimed_reports, Effect.untimed_waits, untimed_closing, aftermath]
  rw [effects, List.map_cons, List.map_cons, h]
  rfl

theorem Takes.run_eq {t : Turn ω ι C} {next : Cursor C} (ht : x.Takes t) (hl : t.led = .ok next) :
    next.control.run = t.cursor.control.run := by
  cases ht.goesOn hl with
  | next d ho => rw [onward_control]; rfl
  | failed d hs hf hc =>
    rw [onward_control, hc]
    split <;> rfl
  | jumped d => rfl

/-! ### The store behind a run -/

theorem aftermath_of_silent {o : Outcome C} (h : ∀ a, o ≠ .answered a) (step : BoundStep ω ι C)
    (cur : Cursor C) (d : Nanos) : x.aftermath step cur d o = [] := by
  cases o with
  | answered a => exact absurd rfl (h a)
  | panicked text => cases hx : x.discipline <;> simp [aftermath, closing, waits, hx, followed?]
  | blocked => cases hx : x.discipline <;> simp [aftermath, closing, waits, hx, followed?]

/-- A request that is followed is reported and waited for; any other one changes nothing. -/
theorem transfer_snd {m : Nat} {sleeper : Sleeper ω} (hx : x.discipline = .addressed m sleeper)
    (step : BoundStep ω ι C) (cur : Cursor C) (signal : JumpSignal) (s : Store ω ι) :
    (x.transfer m sleeper step cur signal s).2 =
      if x.admits cur.jumps signal then
        (sleeper.pause signal.delay
          (x.emit cur.control (.jump step.displayLabel signal.label signal.delayMillis) s)).2
      else s := by
  unfold transfer admits
  rw [hx]
  split
  · have h : ¬cur.jumps < (Discipline.addressed m sleeper).budget := Nat.not_lt.2 ‹_›
    simp [h]
  · have h : cur.jumps < (Discipline.addressed m sleeper).budget := Nat.lt_of_not_le ‹_›
    cases hl : x.plan.indexOf? signal.label with
    | none => simp
    | some target =>
      simp only [h, decide_true, Bool.true_and, Option.any_some]
      split
      · rw [if_neg (by simpa using ‹target < x.plan.preBoundary›)]
      · rw [if_pos (by simpa using ‹¬target < x.plan.preBoundary›)]
        -- The run sleeps before it looks at the type that the target expects: the store is the same, whether
        -- it goes on from there or not.
        split
        · rename_i hpause
          rw [hpause]
        · rename_i hpause
          rw [hpause]
          split <;> rfl

variable [LocalAction ω ι C]

/-- The store behind an effect. -/
def carryOut (x : Executor ω ι C) (run : RunId) (s : Store ω ι) : Effect ω ι C → Store ω ι
  | .report e => { s with world := x.sink ⟨x.plan.name, run⟩ e s.world }
  | .apply step value control => (step.action.apply value control s).world
  | .wait d =>
    match x.discipline with
    | .phased => s
    | .addressed _ sleeper => (sleeper.pause d s).2

theorem settle_snd (step : BoundStep ω ι C) (begun : Control C) (cur : Cursor C) (d : Nanos) (a : Answer C)
    (s : Store ω ι) :
    (x.settle step begun cur d a s).2 =
      (x.aftermath step cur d (.answered a)).foldl (x.carryOut cur.control.run) s := by
  cases hx : x.discipline with
  | phased =>
    simp only [settle, aftermath, closing, waits, hx]
    cases a with
    | ok v => rfl
    | error f =>
      simp only [settlePhased]
      cases f.asActionError <;> rfl
  | addressed m sleeper =>
    simp only [settle, aftermath, closing, waits, hx]
    cases a with
    | ok v => rfl
    | error f =>
      cases f with
      | abort e => rfl
      | failed e =>
        simp only [settleAddressed]
        split <;> rfl
      | jump signal =>
        simp only [settleAddressed, transfer_snd hx, followed?]
        split
        · simp [carryOut, hx, emit, Control.recordTiming]
        · rfl

variable [Host ω]

theorem turn_snd (cur : Cursor C) (step : BoundStep ω ι C) (s : Store ω ι) :
    ∃ d, (x.turn cur step s).2 =
      (x.effects d (x.turn cur step s).1).foldl (x.carryOut cur.control.run) s := by
  let started := x.emit (cur.begun step) (.stepStart cur.position step.displayLabel) s
  let a := step.action.apply cur.value (cur.begun step) started
  have hled (o : Outcome C) : ∃ d, (x.lead step (cur.begun step) (cur.left step a.marks) (Host.now started)
      o a.world).2 = (x.aftermath step cur d o).foldl (x.carryOut cur.control.run) a.world := by
    cases o with
    | panicked text =>
      refine ⟨0, ?_⟩
      rw [aftermath_of_silent fun a ha => by cases ha]
      rfl
    | blocked =>
      refine ⟨0, ?_⟩
      rw [aftermath_of_silent fun a ha => by cases ha]
      rfl
    | answered answer =>
      exact ⟨_, settle_snd step (cur.begun step) (cur.left step a.marks) _ answer a.world⟩
  exact hled a.outcome

/-- The turns of a run, taken one after another from a store on, leave this one. -/
def Leaves (x : Executor ω ι C) (run : RunId) (s : Store ω ι) (ts : List (Turn ω ι C)) (s' : Store ω ι) :
    Prop :=
  ∃ ds : List (Effect ω ι C),
    s' = ds.foldl (x.carryOut run) s ∧ ds.map Effect.untimed = ts.flatMap (x.effects 0)

section
variable {run : RunId} {s s' s'' : Store ω ι} {us vs : List (Turn ω ι C)}

omit [Host ω] in
theorem leaves_nil (x : Executor ω ι C) (run : RunId) (s : Store ω ι) : x.Leaves run s [] s :=
  ⟨[], rfl, rfl⟩

omit [Host ω] in
theorem Leaves.append (h : x.Leaves run s us s') (h' : x.Leaves run s' vs s'') :
    x.Leaves run s (us ++ vs) s'' := by
  obtain ⟨ds, rfl, hds⟩ := h
  obtain ⟨ds', rfl, hds'⟩ := h'
  refine ⟨ds ++ ds', ?_, ?_⟩
  · rw [List.foldl_append]
  · rw [List.map_append, hds, hds', List.flatMap_append]

theorem leaves_turn (x : Executor ω ι C) (cur : Cursor C) (step : BoundStep ω ι C) (s : Store ω ι) :
    x.Leaves cur.control.run s [(x.turn cur step s).1] (x.turn cur step s).2 := by
  obtain ⟨d, hd⟩ := x.turn_snd cur step s
  exact ⟨_, hd, by rw [untimed_effects, List.flatMap_singleton]⟩

end

theorem drive_snd (x : Executor ω ι C) (cur : Cursor C) (s : Store ω ι) :
    x.Leaves cur.control.run s (x.history cur s) (x.drive cur s).2 := by
  fun_induction history x cur s with
  | case1 cur s h =>
    rw [drive_of_none h]
    exact x.leaves_nil _ s
  | case2 cur s step h e hl =>
    rw [drive_of_error h hl]
    exact x.leaves_turn cur step s
  | case3 cur s step h next hl ih =>
    rw [drive_of_ok h hl]
    rw [(takes_turn h).run_eq hl] at ih
    exact (x.leaves_turn cur step s).append ih

/-- Each step is applied in the store that the turns before it left, once its start is reported there. -/
theorem performed_history {cur : Cursor C} {s : Store ω ι} {us vs : List (Turn ω ι C)} {t : Turn ω ι C}
    (h : x.history cur s = us ++ t :: vs) :
    ∃ s', x.Leaves cur.control.run s us s' ∧
      t.PerformedIn (x.emit t.begun (.stepStart t.cursor.position t.step.displayLabel) s') := by
  have hfirst (cur : Cursor C) (step : BoundStep ω ι C) (s : Store ω ι) :
      ∃ s', x.Leaves cur.control.run s [] s' ∧ (x.turn cur step s).1.PerformedIn
        (x.emit (cur.begun step) (.stepStart cur.position step.displayLabel) s') :=
    ⟨s, x.leaves_nil _ s, rfl, rfl⟩
  fun_induction history x cur s generalizing us with
  | case1 cur s hn => simp at h
  | case2 cur s step hs e hl =>
    cases us with
    | nil =>
      obtain ⟨rfl, -⟩ := List.cons.inj h
      exact hfirst cur step s
    | cons u us => simp at h
  | case3 cur s step hs next hl ih =>
    cases us with
    | nil =>
      obtain ⟨rfl, -⟩ := List.cons.inj h
      exact hfirst cur step s
    | cons u us =>
      obtain ⟨rfl, hrest⟩ := List.cons.inj h
      obtain ⟨s', hs', ht⟩ := ih hrest
      rw [(takes_turn hs).run_eq hl] at hs'
      exact ⟨s', (x.leaves_turn cur step s).append hs', ht⟩

theorem finish_snd (begun : Control C) (e : Ending ω ι C (C × Control C)) (s : Store ω ι) :
    ∃ d, (x.finish begun (e, s)).2 =
      (((x.finish begun (e, s)).1.report d).map Effect.report).foldl (x.carryOut begun.run) s := by
  refine ⟨finish.elapsed begun s, ?_⟩
  cases e with
  | completed a =>
    simp only [finish]
    split <;> rfl
  | failed e => rfl
  | panicked t => rfl
  | blocked h => rfl

omit [Host ω] [LocalAction ω ι C] in
theorem untimed_report (e : Ending ω ι C (RunResult C)) (d : Nanos) :
    (e.report d).map Event.untimed = e.report 0 := by
  cases e <;> rfl

/-- The store behind a run is the one that its effects make: the start is reported, each turn is carried
out, and the end is reported. -/
theorem execute_snd (x : Executor ω ι C) (start : Option String) (input : C) (s : Store ω ι) :
    ∃ ds : List (Effect ω ι C), (x.execute start input s).2 = ds.foldl (x.carryOut (x.opening start s).1.run)
        (Control.new x.plan.name x.plan.definition.handler s).2 ∧
      ds.map Effect.untimed = .report (.pipelineStart start) :: (x.trace start input s).flatMap (x.effects 0) ++
        ((x.execute start input s).1.report 0).map .report := by
  -- Whatever the run came to, its start and its end are reported around it.
  have around (e : Ending ω ι C (C × Control C)) (t : Store ω ι) (ds : List (Effect ω ι C))
      (ht : t = ds.foldl (x.carryOut (x.opening start s).1.run) (x.opening start s).2) :
      ∃ ds' : List (Effect ω ι C), (x.finish (x.opening start s).1 (e, t)).2 =
          ds'.foldl (x.carryOut (x.opening start s).1.run)
            (Control.new x.plan.name x.plan.definition.handler s).2 ∧
        ds'.map Effect.untimed = .report (.pipelineStart start) :: ds.map Effect.untimed ++
          ((x.finish (x.opening start s).1 (e, t)).1.report 0).map .report := by
    obtain ⟨d, hd⟩ := finish_snd (x := x) (x.opening start s).1 e t
    refine ⟨.report (.pipelineStart start) :: ds ++
      ((x.finish (x.opening start s).1 (e, t)).1.report d).map .report, ?_, ?_⟩
    · rw [hd, ht, List.foldl_append]
      rfl
    · rw [List.map_append, ← untimed_report _ d, List.map_map, List.map_map]
      rfl
  cases hstart : x.startAt start input (x.opening start s).1 with
  | error e =>
    obtain ⟨ds, hds⟩ := around (.failed e) (x.opening start s).2 [] rfl
    refine ⟨ds, ?_⟩
    rw [(trace_of_error hstart).1]
    simpa only [execute, hstart, List.map_nil, List.flatMap_nil] using hds
  | ok cur =>
    have hcontrol : cur.control = (x.opening start s).1 := control_of_startAt hstart
    obtain ⟨ds, hstore, huntimed⟩ := x.drive_snd cur (x.opening start s).2
    rw [hcontrol] at hstore
    obtain ⟨ds', hds⟩ := around (x.drive cur (x.opening start s).2).1 _ ds hstore
    refine ⟨ds', ?_⟩
    rw [huntimed] at hds
    simpa only [execute, trace, hstart] using hds

/-- The end of a run that took these turns, if it had a start. -/
def endFrom (x : Executor ω ι C) (start : Option String) (input : C) (control : Control C)
    (ts : List (Turn ω ι C)) : Ending ω ι C (C × Control C) :=
  match x.startAt start input control with
  | .error e => .failed e
  | .ok cur => endOf cur ts

/-- The turns account for a run that came to `r`. They are those of a course from its start. Each step is
applied where the run stood, in the store that the turns before it left, once its start was reported there.
The run ends as the turns do, in the store that they leave. -/
structure Account (x : Executor ω ι C) (start : Option String) (input : C) (s : Store ω ι)
    (ts : List (Turn ω ι C)) (r : Ending ω ι C (RunResult C) × Store ω ι) : Prop where
  course : ∀ cur, x.startAt start input (x.opening start s).1 = .ok cur → x.Course cur ts
  performed : ∀ us t vs, ts = us ++ t :: vs →
    ∃ s', x.Leaves (x.opening start s).1.run (x.opening start s).2 us s' ∧
      t.PerformedIn (x.emit t.begun (.stepStart t.cursor.position t.step.displayLabel) s')
  ended : ∃ s', x.Leaves (x.opening start s).1.run (x.opening start s).2 ts s' ∧
    r = x.finish (x.opening start s).1 (x.endFrom start input (x.opening start s).1 ts, s')

theorem account_trace (x : Executor ω ι C) (start : Option String) (input : C) (s : Store ω ι) :
    x.Account start input s (x.trace start input s) (x.execute start input s) := by
  cases hstart : x.startAt start input (x.opening start s).1 with
  | error e =>
    rw [(trace_of_error hstart).1]
    refine ⟨fun cur hcur => ?_, fun us t vs h => ?_, (x.opening start s).2, x.leaves_nil .., ?_⟩
    · cases hstart.symm.trans hcur
    · simp at h
    · simp only [execute, endFrom, hstart]
  | ok cur =>
    have hcontrol : cur.control = (x.opening start s).1 := control_of_startAt hstart
    obtain ⟨htrace, hexecute⟩ := trace_of_ok hstart
    rw [htrace, hexecute]
    refine ⟨fun cur' hcur => ?_, fun us t vs h => ?_, (x.drive cur (x.opening start s).2).2, ?_, ?_⟩
    · obtain rfl := Except.ok.inj (hstart.symm.trans hcur)
      exact x.course_history cur _
    · exact hcontrol ▸ performed_history h
    · exact hcontrol ▸ x.drive_snd cur _
    · simp only [endFrom, hstart, ← drive_fst]

theorem caches_execute (x : Executor ω ι C) (start : Option String) (input : C) (s : Store ω ι) :
    (x.execute start input s).2.caches = s.caches := by
  have hone (run : RunId) (t : Store ω ι) (d : Effect ω ι C) : (x.carryOut run t d).caches = t.caches := by
    cases d with
    | report e => rfl
    | apply step value control => exact BoundAction.caches_apply ..
    | wait d =>
      simp only [carryOut]
      split
      · rfl
      · unfold Sleeper.pause
        split <;> rfl
  have hall (run : RunId) (ds : List (Effect ω ι C)) (t : Store ω ι) :
      (ds.foldl (x.carryOut run) t).caches = t.caches := by
    induction ds generalizing t with
    | nil => rfl
    | cons d ds ih => exact (ih _).trans (hone run t d)
  obtain ⟨ds, hds, -⟩ := x.execute_snd start input s
  rw [hds, hall]
  rfl

end Executor
end Pipeworks
