import Pipeworks.Proofs.EventStream
import Pipeworks.Run.Naps

/-!
# The delays of jumps

`delays_honoured`: a run of an interpreter calls its sleeper with the delays of the requests that it follows, one
after another and in full; only the events show them in whole milliseconds. What a sleeper answers is heeded:
its error ends the run before the target is begun.
-/

namespace Pipeworks

/-- The delay that a jump is reported with. -/
def Event.jumpMillis? : Event → Option Nat
  | jump _ _ ms => some ms
  | _ => none

namespace Executor
variable {ω ι C : Type} {x : Executor ω ι C} {cur : Cursor C} {t : Turn ω ι C} {ts : List (Turn ω ι C)}
  {m : Nat} {sleeper : Sleeper ω}

/-- Where a run stands, it has made as many jumps as its steps have asked for. -/
theorem Course.jumps_eq_requests (hx : x.discipline = .addressed m sleeper) (h : x.Course cur ts)
    {us vs : List (Turn ω ι C)} (hts : ts = us ++ t :: vs) : t.cursor.jumps = cur.jumps + Turn.requests us := by
  induction h generalizing us with
  | done h => simp at hts
  | @last u e hu hl =>
    cases us with
    | nil =>
      obtain ⟨rfl, -⟩ := List.cons.inj hts
      rfl
    | cons v us => simp at hts
  | @cons u next ts hu hl hc ih =>
    cases us with
    | nil =>
      obtain ⟨rfl, -⟩ := List.cons.inj hts
      rfl
    | cons v us =>
      obtain ⟨rfl, hrest⟩ := List.cons.inj hts
      rw [ih hrest, (hu.jumps_of_ok hx hl).1, Turn.requests_cons u us, Nat.add_assoc]

theorem jumpMillis_events (x : Executor ω ι C) (t : Turn ω ι C) :
    (x.events t).filterMap Event.jumpMillis? =
      (x.followed? t.cursor t.outcome).toList.map (·.delayMillis) := by
  have h : (x.events t).filterMap Event.jumpMillis? =
      ((x.events t).filter (·.isJump)).filterMap Event.jumpMillis? := by
    rw [List.filterMap_filter]
    exact congrArg (List.filterMap · _) (funext fun e => by cases e <;> rfl)
  rw [h, filter_jumps_events, jumpEvents]
  cases x.followed? t.cursor t.outcome <;> rfl

variable [Host ω] [LocalAction ω ι C] {start : Option String} {input : C} {s : Store ω ι}

theorem jumpMillis_stream (x : Executor ω ι C) (start : Option String) (input : C) (s : Store ω ι) :
    (x.stream start input s).filterMap Event.jumpMillis? =
      (x.followed (x.trace start input s)).map (·.delayMillis) := by
  have hend : ((x.execute start input s).1.report 0).filterMap Event.jumpMillis? = [] := by
    cases (x.execute start input s).1 <;> rfl
  have hstart : (Event.pipelineStart start).jumpMillis? = none := rfl
  rw [stream, List.filterMap_append, hend, List.append_nil, List.filterMap_cons_none hstart,
    List.filterMap_flatMap]
  induction x.trace start input s with
  | nil => rfl
  | cons t ts ih => rw [List.flatMap_cons, ih, jumpMillis_events, followed_cons, List.map_append]

theorem Does.mem_of_apply {ds : List (Effect ω ι C)} (h : x.Does start input s ds) {step : BoundStep ω ι C}
    {v : C} {c : Control C} (happly : .apply step v c ∈ ds) : step ∈ x.plan.definition.steps.flat := by
  have hmem : Effect.apply step v c ∈ ds.map Effect.untimed := List.mem_map.2 ⟨_, happly, rfl⟩
  rw [h.untimed, List.cons_append, List.mem_cons, List.mem_append] at hmem
  rcases hmem with hmem | hmem | hmem
  · cases hmem
  · obtain ⟨t, ht, hmem⟩ := List.mem_flatMap.1 hmem
    have hposition := forall_trace (P := fun t => x.plan.step? t.cursor.position = some t.step)
      (fun cur step s hstep => hstep) start input s t ht
    rw [x.plan.step?_eq] at hposition
    have hstep : step = t.step := by
      simp [effects, aftermath] at hmem
      exact hmem.1
    rw [hstep]
    exact List.mem_of_getElem? hposition
  · simp at hmem

end Executor

variable {ω ι C : Type} [Host ω] [LocalAction ω ι C]

/-- The delays of jumps are honoured exactly, in every run of an interpreter. The effects `ds` of the run make the
store behind it, and the calls of the sleeper among them have the delays of the requests that the run follows, in
the order of the requests and in full; a request without a delay makes no call. Where the sleeper notes its calls
in a record that nothing else touches, the record has just these. A request is followed if fewer requests than the
budget came before it, and its label stands at a step behind pre. The jumps are reported in the same order, each
with the whole milliseconds of its delay as far as 64 bits go. A call that the sleeper answers with an error is the
last one, it is made in the last turn of the run, and the run ends with the error, whatever its policy is. -/
theorem delays_honoured (i : Interpreter ω ι C) (start : Option String) (out : Option (Marker C)) (input : C)
    (s : Store ω ι) :
    ∃ ds : List (Effect ω ι C), (i.executor out).Does start input s ds ∧
      ((i.executor out).napsFrom s ds).map (·.delay) =
        (((i.executor out).followed (i.turns start out input s)).map (·.delay)).filter (· ≠ 0) ∧
      (∀ (α : Type) (seen : ω → List α) (note : Nap → α),
        (∀ d w, seen (i.sleeper d w).2 = seen w ++ [note ⟨d, (i.sleeper d w).1⟩]) →
        (∀ h e w, seen (i.sink h e w) = seen w) → (∀ w, seen (Host.newRun w).2 = seen w) →
        (∀ step ∈ i.plan.definition.steps.flat, ∀ v c (t : Store ω ι),
          seen (step.action.apply v c t).world.world = seen t.world) →
        seen (i.executeFrom start out input s).2.world =
          seen s.world ++ ((i.executor out).napsFrom s ds).map note) ∧
      (∀ us t vs, i.turns start out input s = us ++ t :: vs → ∀ signal,
        (i.executor out).followed? t.cursor t.outcome = some signal ↔
          t.outcome = .fault (.jump signal) ∧ Turn.requests us < i.budget ∧
            ∃ target, i.plan.indexOf? signal.label = some target ∧ i.plan.preBoundary ≤ target) ∧
      ((i.executor out).stream start input s).filterMap Event.jumpMillis? =
        ((i.executor out).followed (i.turns start out input s)).map
          (fun signal => min (signal.delay / 1000000) (UInt64.size - 1)) ∧
      (∀ earlier nap later e, (i.executor out).napsFrom s ds = earlier ++ nap :: later → nap.answer = .error e →
        later = [] ∧ (i.executeFrom start out input s).1 = .failed e ∧
          ∃ us t signal, i.turns start out input s = us ++ [t] ∧
            (i.executor out).followed? t.cursor t.outcome = some signal ∧ signal.delay = nap.delay) := by
  have hx := i.discipline_executor out
  obtain ⟨ds, hdoes, hheeds⟩ := Executor.execute_naps hx start input s
  refine ⟨ds, hdoes, hdoes.delays hx, ?_, ?_, (i.executor out).jumpMillis_stream start input s, hheeds⟩
  · intro α seen note hsleeper hsink hrun hsteps
    have hopened : seen (Control.new i.plan.name i.plan.definition.handler s).2.world = seen s.world :=
      hrun s.world
    have hseen := Executor.seen_foldl hx hsleeper hsink ((i.executor out).opening start s).1.run ds
      (fun step v c h => hsteps step (hdoes.mem_of_apply h) v c)
      (Control.new i.plan.name i.plan.definition.handler s).2
    rw [hopened] at hseen
    exact (congrArg (fun t => seen t.world) hdoes.store).trans hseen
  · intro us t vs hts signal
    rw [Executor.followed?_eq_some, Executor.admits_iff]
    have hjumps : t.cursor.jumps = Turn.requests us := by
      cases hstart : (i.executor out).startAt start input ((i.executor out).opening start s).1 with
      | error e =>
        have hnone : i.turns start out input s = [] := (Executor.trace_of_error hstart).1
        rw [hnone] at hts
        simp at hts
      | ok cur =>
        have hcourse : (i.executor out).Course cur (i.turns start out input s) :=
          (Executor.course_trace hstart).1
        rw [hcourse.jumps_eq_requests hx hts, Executor.jumps_of_startAt hstart, Nat.zero_add]
    rw [hjumps]
    rfl

/-- Less than a millisecond is shown as none, and more of them than 64 bits hold as the greatest word. -/
example : (JumpSignal.after "a" 999999).delayMillis = 0 ∧
    (JumpSignal.after "a" (1000000 * UInt64.size)).delayMillis = UInt64.size - 1 := by decide

end Pipeworks
