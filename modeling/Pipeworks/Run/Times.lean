import Pipeworks.Run.Onward

/-!
# Times of turns

A turn that leads on has added one timing to the log, under the name of its step (`Takes.timings`). So the log
that a step finds has one timing for every turn before it, in the order they were taken (`Course.timings`). What
a timing tells is the time that passed on the clock while the step was applied (`clocked_trace`).
-/

namespace Pipeworks
namespace Turn
variable {ω ι C : Type}

/-- How long the step took, as the run has logged it. -/
def latency (t : Turn ω ι C) : Nanos := (t.ended.timings.toList.getLast?.map (·.elapsed)).getD 0

/-- The step was applied where the run stood, and its latency is what the clock went on by meanwhile. -/
def Clocked [Host ω] [LocalAction ω ι C] (t : Turn ω ι C) : Prop :=
  ∃ s, t.outcome = (t.step.action.apply t.cursor.value t.begun s).outcome ∧
    t.latency = saturate (Host.now (t.step.action.apply t.cursor.value t.begun s).world - Host.now s)

end Turn

namespace Executor
variable {ω ι C : Type}

/-- The timing of a turn. -/
def timed (x : Executor ω ι C) (t : Turn ω ι C) : Timing :=
  ⟨t.step.phase, t.step.index, t.step.name, t.latency, x.succeeds t.outcome⟩

variable {x : Executor ω ι C} {cur next : Cursor C} {t : Turn ω ι C} {ts before after : List (Turn ω ι C)}

theorem latency_of_timings {l : List Timing} {e : Timing} (hl : t.led = .ok next)
    (h : next.control.timings.toList = l ++ [e]) : t.latency = e.elapsed := by
  rw [Turn.latency, Turn.ended_of_ok hl, h, List.getLast?_concat]
  rfl

theorem Takes.timings (ht : x.Takes t) (hl : t.led = .ok next) :
    next.control.timings.toList = t.cursor.control.timings.toList ++ [x.timed t] := by
  have hadded : ∃ d, next.control.timings.toList = t.cursor.control.timings.toList ++
      [⟨t.step.phase, t.step.index, t.step.name, d, x.succeeds t.outcome⟩] := by
    cases ht.goesOn hl with
    | next d ho =>
      have hs : x.succeeds t.outcome = true := by simp [succeeds, ho]
      rw [onward_control, hs]
      exact ⟨_, Trail.toList_push _ _⟩
    | failed d hs hf hc =>
      rw [onward_control, hc, hs]
      split <;> exact ⟨_, Trail.toList_push _ _⟩
    | jumped d hs =>
      rw [hs]
      exact ⟨_, Trail.toList_push _ _⟩
  obtain ⟨d, hd⟩ := hadded
  rw [hd, timed, latency_of_timings hl hd]

theorem Course.timings (h : x.Course cur (before ++ t :: after)) :
    t.cursor.control.timings.toList = cur.control.timings.toList ++ before.map x.timed := by
  induction before generalizing cur with
  | nil =>
    rw [List.map_nil, List.append_nil]
    cases h with
    | last ht hl => rfl
    | cons ht hl hc => rfl
  | cons u before ih =>
    rw [List.cons_append] at h
    generalize hrest : before ++ t :: after = rest at h ih
    cases h with
    | last ht hl => simp at hrest
    | cons ht hl hc => rw [ih hc, ht.timings hl, List.map_cons, List.append_assoc, List.singleton_append]

theorem control_of_transfer {m : Nat} {sleeper : Sleeper ω} {step : BoundStep ω ι C} {signal : JumpSignal}
    {s : Store ω ι} (h : (x.transfer m sleeper step cur signal s).1 = .ok next) :
    next.control = cur.control := by
  unfold transfer at h
  split at h
  · cases h
  · split at h
    · cases h
    · split at h
      · cases h
      · simp only at h
        split at h
        · cases h
        · split at h
          · cases h
          · obtain rfl := Except.ok.inj h
            rfl

theorem timings_of_settle {step : BoundStep ω ι C} {begun : Control C} {d : Nanos} {a : Answer C}
    {s : Store ω ι} (h : (x.settle step begun cur d a s).1 = .ok next) :
    ∃ success, next.control.timings = (cur.control.recordTiming d success).timings := by
  unfold settle at h
  split at h
  · unfold settlePhased at h
    split at h
    · obtain rfl := Except.ok.inj h
      exact ⟨true, rfl⟩
    · simp only at h
      split at h
      · cases h
      · obtain rfl := Except.ok.inj h
        refine ⟨false, ?_⟩
        simp only [pass, Control.recordError]
        split <;> rfl
  · unfold settleAddressed at h
    split at h
    · obtain rfl := Except.ok.inj h
      exact ⟨true, rfl⟩
    · rw [control_of_transfer h]
      exact ⟨true, rfl⟩
    · simp only at h
      split at h
      · cases h
      · obtain rfl := Except.ok.inj h
        exact ⟨false, rfl⟩
    · cases h

variable [Host ω]

variable [LocalAction ω ι C]

theorem clocked_turn {step : BoundStep ω ι C} {s : Store ω ι} (hl : (x.turn cur step s).1.led = .ok next) :
    (x.turn cur step s).1.Clocked := by
  let started := x.emit (cur.begun step) (.stepStart cur.position step.displayLabel) s
  let a := step.action.apply cur.value (cur.begun step) started
  refine ⟨started, rfl, ?_⟩
  have hled : (x.lead step (cur.begun step) (cur.left step a.marks) (Host.now started) a.outcome a.world).1 =
      .ok next := hl
  have hsettle : ∃ answer, (x.settle step (cur.begun step) (cur.left step a.marks)
      (Host.now a.world - Host.now started) answer a.world).1 = .ok next := by
    unfold lead at hled
    split at hled
    · cases hled
    · cases hled
    · rename_i answer hanswer
      refine ⟨answer, ?_⟩
      cases hr : (x.settle step (cur.begun step) (cur.left step a.marks)
        (Host.now a.world - Host.now started) answer a.world).1 with
      | error e =>
        simp only [hr] at hled
        cases hled
      | ok cur' =>
        simp only [hr] at hled
        exact congrArg _ (Except.ok.inj hled)
  obtain ⟨answer, hanswer⟩ := hsettle
  obtain ⟨success, hs⟩ := timings_of_settle hanswer
  have hlog : next.control.timings.toList = cur.control.timings.toList ++
      [⟨step.phase, step.index, step.name, saturate (Host.now a.world - Host.now started), success⟩] := by
    rw [hs]
    exact Trail.toList_push _ _
  exact latency_of_timings hl hlog

/-- Every turn that leads on in a run is clocked. -/
theorem clocked_trace {start : Option String} {input : C} {s : Store ω ι} :
    ∀ t ∈ x.trace start input s, ∀ next, t.led = .ok next → t.Clocked :=
  forall_trace (fun _ _ _ _ _ hl => clocked_turn hl) start input s

end Executor
end Pipeworks
