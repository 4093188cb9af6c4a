import Pipeworks.Proofs.RunLogs
import Pipeworks.Run.Effects

/-!
# The events of a run

`events_follow_run`: what a run reports to its sink is its start, then turn by turn the step that it begins
and what became of it (`Executor.events`), and its end. Nothing else is reported in between, since the store
behind the run is the one that its effects make. `Closes` says which events stand behind the start of a step;
each jump among them is one of the budget (`Course.jumps_of_events`).
-/

namespace Pipeworks

namespace Event

def isStepStart : Event → Bool
  | stepStart .. => true
  | _ => false

def isStepEnd : Event → Bool
  | stepEnd .. => true
  | _ => false

/-- The event is neither the start nor the end of a run. -/
def isInner : Event → Bool
  | pipelineStart _ => false
  | pipelineEnd .. => false
  | _ => true

theorem isInner_of_isStepStart (e : Event) (h : e.isStepStart = true) : e.isInner = true := by
  cases e with
  | stepStart => rfl
  | _ => cases h

theorem isInner_of_isJump (e : Event) (h : e.isJump = true) : e.isInner = true := by
  cases e with
  | jump => rfl
  | _ => cases h

end Event

def Ending.error? {ω ι C α : Type} : Ending ω ι C α → Option EngineError
  | failed e => some e
  | _ => none

/-- The run came back with a result that has no errors. -/
def Ending.flawless {ω ι C : Type} : Ending ω ι C (RunResult C) → Bool
  | completed r => r.errors.isEmpty
  | _ => false

/-- The end of a run that comes back is one event: whether it was flawless, and the text of its error. -/
theorem Ending.report_of_returns {ω ι C : Type} {e : Ending ω ι C (RunResult C)} (h : e.returns = true)
    (d : Nanos) : e.report d = [.pipelineEnd e.flawless d (e.error?.map (·.message))] := by
  cases e with
  | completed r => rfl
  | failed e => rfl
  | panicked t => cases h
  | blocked held => cases h

namespace Executor
variable {ω ι C : Type} {x : Executor ω ι C} {cur next : Cursor C} {t : Turn ω ι C}
  {ts : List (Turn ω ι C)} {signal : JumpSignal}

/-! ### Jumps that are reported -/

theorem lt_budget_of_followed? {o : Outcome C} (h : x.followed? cur o = some signal) :
    cur.jumps < x.discipline.budget := by
  unfold followed? at h
  split at h
  · split at h
    · exact of_decide_eq_true (Bool.and_eq_true_iff.1 ‹_›).1
    · cases h
  · cases h

theorem followed?_phased (hx : x.discipline = .phased) (cur : Cursor C) (o : Outcome C) :
    x.followed? cur o = none := by
  cases h : x.followed? cur o with
  | none => rfl
  | some signal =>
    have hlt := lt_budget_of_followed? h
    rw [hx] at hlt
    cases hlt

theorem succeeds_of_followed? {o : Outcome C} (h : x.followed? cur o = some signal) : x.succeeds o = true := by
  cases hx : x.discipline with
  | phased =>
    rw [followed?_phased hx] at h
    cases h
  | addressed m sleeper =>
    cases o using Outcome.byFault with
    | jump signal => simp [succeeds, hx]
    | next v | failed e | abort e | panicked t | blocked => cases h

/-- The step is reported finished. -/
def finishes (x : Executor ω ι C) (o : Outcome C) : Bool :=
  match x.discipline, o with
  | _, .answered (.ok _) => true
  | _, .answered (.error (.jump _)) => true
  | .phased, .answered (.error (.failed _)) => true
  | _, _ => false

/-- The jump that a step is reported to make, if its request is followed. -/
def jumpEvents (x : Executor ω ι C) (step : BoundStep ω ι C) (cur : Cursor C) (o : Outcome C) : List Event :=
  (x.followed? cur o).toList.map fun signal => .jump step.displayLabel signal.label signal.delayMillis

/-- Events behind the start of a step: its end with its success, or none, and its jump. -/
structure Closes (x : Executor ω ι C) (step : BoundStep ω ι C) (cur : Cursor C) (o : Outcome C)
    (es : List Event) : Prop where
  inner : es.all (·.isInner) = true
  starts : es.filter (·.isStepStart) = []
  ends : es.filter (·.isStepEnd) =
    if x.finishes o then [.stepEnd cur.position step.displayLabel 0 (x.succeeds o)] else []
  jumps : es.filter (·.isJump) = x.jumpEvents step cur o

theorem closes_closing (x : Executor ω ι C) (step : BoundStep ω ι C) (cur : Cursor C) (o : Outcome C) :
    x.Closes step cur o (x.closing step cur 0 o) := by
  -- But for requests in an addressed run, the discipline and the outcome settle what the events are.
  obtain ⟨plan, sink, discipline, out⟩ := x
  cases discipline with
  | phased =>
    have hjumps : jumpEvents ⟨plan, sink, .phased, out⟩ step cur o = [] := by
      rw [jumpEvents, followed?_phased rfl]
      rfl
    cases o using Outcome.byFault with
    | next v | failed e | jump signal | abort e | panicked t | blocked => exact ⟨rfl, rfl, rfl, hjumps.symm⟩
  | addressed m sleeper =>
    cases o using Outcome.byFault with
    | next v | failed e | abort e | panicked t | blocked => exact ⟨rfl, rfl, rfl, rfl⟩
    | jump signal =>
      let y : Executor ω ι C := ⟨plan, sink, .addressed m sleeper, out⟩
      let o : Outcome C := .answered (.error (.jump signal))
      have hclosing : y.closing step cur 0 o =
          .stepEnd cur.position step.displayLabel 0 true :: y.jumpEvents step cur o := rfl
      show y.Closes step cur o _
      rw [hclosing]
      cases h : y.followed? cur o with
      | none =>
        have hjumps : y.jumpEvents step cur o = [] := by rw [jumpEvents, h]; rfl
        rw [hjumps]
        exact ⟨rfl, rfl, rfl, hjumps.symm⟩
      | some followed =>
        have hjumps : y.jumpEvents step cur o =
            [.jump step.displayLabel followed.label followed.delayMillis] := by rw [jumpEvents, h]; rfl
        rw [hjumps]
        exact ⟨rfl, rfl, rfl, hjumps.symm⟩

theorem filter_jumps_events (x : Executor ω ι C) (t : Turn ω ι C) :
    (x.events t).filter (·.isJump) = x.jumpEvents t.step t.cursor t.outcome := by
  rw [events, List.filter_cons_of_neg (by simp [Event.isJump])]
  exact (x.closes_closing t.step t.cursor t.outcome).jumps

theorem filter_starts_events (x : Executor ω ι C) (t : Turn ω ι C) :
    (x.events t).filter (·.isStepStart) = [.stepStart t.cursor.position t.step.displayLabel] := by
  rw [events, List.filter_cons_of_pos rfl, (x.closes_closing t.step t.cursor t.outcome).starts]

theorem countP_events (x : Executor ω ι C) (t : Turn ω ι C) :
    (x.events t).countP (·.isJump) = (x.followed? t.cursor t.outcome).toList.length := by
  rw [List.countP_eq_length_filter, x.filter_jumps_events, jumpEvents, List.length_map]

theorem countP_events_le (x : Executor ω ι C) (t : Turn ω ι C) (hj : t.cursor.jumps ≤ x.discipline.budget) :
    t.cursor.jumps + (x.events t).countP (·.isJump) ≤ x.discipline.budget := by
  rw [countP_events]
  cases h : x.followed? t.cursor t.outcome with
  | none => exact hj
  | some signal => exact lt_budget_of_followed? h

theorem Takes.jumps_of_events (ht : x.Takes t) (hl : t.led = .ok next) :
    next.jumps = t.cursor.jumps + (x.events t).countP (·.isJump) := by
  rw [countP_events]
  cases ht.goesOn hl with
  | next d ho =>
    rw [onward_jumps, ho]
    rfl
  | failed d hs hf hc =>
    rw [onward_jumps]
    cases h : x.followed? t.cursor t.outcome with
    | none => rfl
    | some signal =>
      rw [succeeds_of_followed? h] at hs
      cases hs
  | jumped d hs ho hj hlabel hb => simp [followed?, ho, admits, hj, hlabel, hb]

theorem Course.jumps_of_events (h : x.Course cur ts) {us vs : List (Turn ω ι C)} (hts : ts = us ++ t :: vs) :
    t.cursor.jumps = cur.jumps + (us.flatMap x.events).countP (·.isJump) := by
  induction h generalizing us with
  | done h => simp at hts
  | @last u e hu hl =>
    cases us with
    | nil =>
      obtain ⟨rfl, -⟩ := List.cons.inj hts
      rfl
    | cons v us => simp at hts
  | @cons u next ts hu hl hc ih =>
    cases us with
    | nil =>
      obtain ⟨rfl, -⟩ := List.cons.inj hts
      rfl
    | cons v us =>
      obtain ⟨rfl, hrest⟩ := List.cons.inj hts
      rw [ih hrest, hu.jumps_of_events hl, List.flatMap_cons, List.countP_append, Nat.add_assoc]

theorem Course.countP_events_le (h : x.Course cur ts) (hj : cur.jumps ≤ x.discipline.budget) :
    cur.jumps + (ts.flatMap x.events).countP (·.isJump) ≤ x.discipline.budget := by
  induction h with
  | done h => exact hj
  | @last t e ht hl =>
    rw [List.flatMap_singleton]
    exact x.countP_events_le t hj
  | @cons t next ts ht hl hc ih =>
    -- The jumps of the turn are on the cursor behind it, which is still within the budget.
    have hturn := x.countP_events_le t hj
    rw [← ht.jumps_of_events hl] at hturn
    have hrest := ih hturn
    rw [ht.jumps_of_events hl] at hrest
    rw [List.flatMap_cons, List.countP_append]
    omega

theorem jumps_of_startAt {start : Option String} {input : C} {c : Control C}
    (h : x.startAt start input c = .ok cur) : cur.jumps = 0 := by
  rcases x.startAt_cases start input c with ⟨n, hn⟩ | ⟨label, hn⟩
  · obtain rfl := Except.ok.inj (hn.symm.trans h)
    rfl
  · cases hn.symm.trans h

/-! ### Runs that come back -/

theorem Takes.returns_of_error {e : Ending ω ι C (C × Control C)} (ht : x.Takes t)
    (ho : t.outcome.returns = true) (hl : t.led = .error e) : e.returns = true := by
  cases hx : x.discipline with
  | addressed m sleeper => exact ht.returns hx ho hl
  | phased =>
    obtain ⟨cur, step, o, mk, led⟩ := t
    obtain rfl : led = .error e := hl
    have h : x.PhasedLead (cur.begun step) (cur.left step mk) o (.error e) := ht.phasedLead hx
    cases h with
    | aborted e => rfl
    | panicked text => cases ho
    | blocked held => cases ho

theorem Course.returns_of_forall (h : x.Course cur ts) (ho : ∀ t ∈ ts, t.outcome.returns = true) :
    (endOf cur ts).returns = true := by
  obtain ⟨-, ⟨last, -, -, hend⟩ | ⟨t, ht, hend⟩⟩ := h.reaches (I := fun _ => True) trivial
    fun _ _ _ _ _ _ => trivial
  · rw [hend]
    rfl
  · have hmem : t ∈ ts := List.mem_of_getLast? ht
    exact (h.takes t hmem).returns_of_error (ho t hmem) hend

end Executor

variable {ω ι C : Type} [Host ω] [LocalAction ω ι C]

/-- What a run reports, without durations: its start, the events of its turns, and its end. -/
def Executor.stream (x : Executor ω ι C) (start : Option String) (input : C) (s : Store ω ι) : List Event :=
  .pipelineStart start :: (x.trace start input s).flatMap x.events ++ (x.execute start input s).1.report 0

theorem Executor.reports_stream (x : Executor ω ι C) (start : Option String) (input : C) (s : Store ω ι) :
    ∃ effects : List (Effect ω ι C),
      (x.execute start input s).2 = effects.foldl (x.carryOut (x.opening start s).1.run)
        (Control.new x.plan.name x.plan.definition.handler s).2 ∧
      effects.map Effect.untimed = .report (.pipelineStart start) ::
        (x.trace start input s).flatMap (x.effects 0) ++ ((x.execute start input s).1.report 0).map .report ∧
      (Effect.events effects).map Event.untimed = x.stream start input s := by
  obtain ⟨effects, hstore, huntimed⟩ := x.execute_snd start input s
  refine ⟨effects, hstore, huntimed, ?_⟩
  rw [← Effect.events_untimed, huntimed, Effect.events_append, Effect.events_reports]
  exact congrArg (Event.pipelineStart start :: · ++ (x.execute start input s).1.report 0)
    (events_turns (x.trace start input s))

theorem Executor.filter_stream (x : Executor ω ι C) (start : Option String) (input : C) (s : Store ω ι)
    {kind : Event → Bool} (hkind : ∀ e, kind e = true → e.isInner = true) :
    (x.stream start input s).filter kind =
      (x.trace start input s).flatMap fun t => (x.events t).filter kind := by
  have hstart : kind (.pipelineStart start) = false := Bool.eq_false_iff.2 fun h => by cases hkind _ h
  have hend : ((x.execute start input s).1.report 0).filter kind = [] := by
    refine List.filter_eq_nil_iff.2 fun e he h => ?_
    have hinner := hkind e h
    cases hr : (x.execute start input s).1 with
    | completed r | failed e' =>
      rw [hr] at he
      rw [List.mem_singleton.1 he] at hinner
      cases hinner
    | panicked t | blocked held =>
      rw [hr] at he
      cases he
  rw [stream, List.filter_append, hend, List.append_nil, List.filter_cons_of_neg (by rw [hstart]; simp),
    List.filter_flatMap]

/-- The events of a run follow its turns. The store behind a run is made by its effects, of which those of a
turn are the report and the application of its step, the reports behind it and the wait for a jump; but for
durations they report the stream of the run. Its starts of steps are those of the turns, each at the position
of the step in the listing of all steps, and what a turn holds of the step is what its action did. Its jumps
are the requests that are followed; those before a turn are counted against the budget, which is not exceeded.
If all steps come back, the stream ends with one event that says whether the run came back with a result
without errors, and its error if it failed; no other event but the first is of this kind. -/
theorem events_follow_run (x : Executor ω ι C) (start : Option String) (input : C) (s : Store ω ι) :
    (∃ effects : List (Effect ω ι C),
      (x.execute start input s).2 = effects.foldl (x.carryOut (x.opening start s).1.run)
        (Control.new x.plan.name x.plan.definition.handler s).2 ∧
      effects.map Effect.untimed = .report (.pipelineStart start) ::
        (x.trace start input s).flatMap (x.effects 0) ++ ((x.execute start input s).1.report 0).map .report ∧
      (Effect.events effects).map Event.untimed = x.stream start input s) ∧
    (x.stream start input s).filter (·.isStepStart) =
      (x.trace start input s).map (fun t => .stepStart t.cursor.position t.step.displayLabel) ∧
    (∀ t ∈ x.trace start input s,
      x.plan.definition.steps.flat[t.cursor.position]? = some t.step ∧ t.Performed ∧
      (x.events t).all (·.isInner) = true) ∧
    (x.stream start input s).filter (·.isJump) =
      (x.trace start input s).flatMap (fun t => x.jumpEvents t.step t.cursor t.outcome) ∧
    (∀ us t vs, x.trace start input s = us ++ t :: vs →
      t.cursor.jumps = (us.flatMap x.events).countP (·.isJump)) ∧
    ((x.stream start input s).filter (·.isJump)).length ≤ x.discipline.budget ∧
    ((∀ t ∈ x.trace start input s, t.outcome.returns = true) →
      (x.execute start input s).1.report 0 = [.pipelineEnd (x.execute start input s).1.flawless 0
        ((x.execute start input s).1.error?.map (·.message))]) := by
  have hstarts : (x.stream start input s).filter (·.isStepStart) =
      (x.trace start input s).map fun t => .stepStart t.cursor.position t.step.displayLabel := by
    rw [x.filter_stream start input s Event.isInner_of_isStepStart, List.map_eq_flatMap]
    exact List.flatMap_congr fun t _ => x.filter_starts_events t
  have hjumps : (x.stream start input s).filter (·.isJump) =
      (x.trace start input s).flatMap fun t => x.jumpEvents t.step t.cursor t.outcome := by
    rw [x.filter_stream start input s Event.isInner_of_isJump]
    exact List.flatMap_congr fun t _ => x.filter_jumps_events t
  have hturns : ∀ t ∈ x.trace start input s,
      x.plan.definition.steps.flat[t.cursor.position]? = some t.step ∧ t.Performed ∧
      (x.events t).all (·.isInner) = true := by
    intro t ht
    have hposition := Executor.forall_trace (P := fun t => x.plan.step? t.cursor.position = some t.step)
      (fun cur step s hstep => hstep) start input s t ht
    exact ⟨(x.plan.step?_eq _).symm.trans hposition, x.performed_trace start input s t ht,
      (x.closes_closing t.step t.cursor t.outcome).inner⟩
  refine ⟨x.reports_stream start input s, hstarts, hturns, hjumps, ?_⟩
  cases hstart : x.startAt start input (x.opening start s).1 with
  | error e =>
    obtain ⟨htrace, hexecute⟩ := Executor.trace_of_error hstart
    rw [hjumps, htrace, hexecute]
    refine ⟨fun us t vs h => ?_, Nat.zero_le _, fun _ => rfl⟩
    simp at h
  | ok cur =>
    obtain ⟨hcourse, u, hrun⟩ := Executor.course_trace hstart
    have hzero : cur.jumps = 0 := Executor.jumps_of_startAt hstart
    refine ⟨fun us t vs h => ?_, ?_, fun hreturns => ?_⟩
    · rw [hcourse.jumps_of_events h, hzero, Nat.zero_add]
    · have hle := hcourse.countP_events_le (by rw [hzero]; exact Nat.zero_le _)
      rw [hzero, Nat.zero_add, List.countP_eq_length_filter, List.filter_flatMap] at hle
      rwa [x.filter_stream start input s Event.isInner_of_isJump]
    · refine Ending.report_of_returns ?_ 0
      rw [hrun, Executor.finish_returns]
      exact hcourse.returns_of_forall hreturns

end Pipeworks
