import Pipeworks.Run.History
/-!
# Turns that lead on

`Takes.goesOn`: under either discipline a turn that leads on has come to a context, or to a failure that the
run notes and passes over, or to a request that it follows. What it does to the cursor is the same in both,
but for the position.
-/

namespace Pipeworks

/-- The error of a step that failed. -/
def Outcome.failed? {C : Type} : Outcome C → Option ActionError
  | .answered (.error (.failed e)) => some e
  | _ => none

namespace Executor
variable {ω ι C : Type}

/-- The step answered with a context, or asked for a jump where jumps are followed. -/
def succeeds (x : Executor ω ι C) (o : Outcome C) : Bool :=
  match x.discipline, o with
  | _, .answered (.ok _) => true
  | .addressed _ _, .answered (.error (.jump _)) => true
  | _, _ => false

/-- The failure that the run itself records for a step. -/
def failure? (x : Executor ω ι C) (o : Outcome C) : Option ActionError :=
  match x.discipline, o with
  | .phased, .answered (.error f) => f.asActionError.toOption
  | .addressed _ _, o => o.failed?
  | _, _ => none

variable {x : Executor ω ι C} {t : Turn ω ι C} {next : Cursor C}

theorem failure?_of_succeeds {o : Outcome C} (h : x.succeeds o = true) : x.failure? o = none := by
  cases o using Outcome.byFault with
  | next v => cases hx : x.discipline <;> simp [failure?, hx, Outcome.failed?]
  | jump signal =>
    cases hx : x.discipline with
    | phased => simp [succeeds, hx] at h
    | addressed m sleeper => simp [failure?, hx, Outcome.failed?]
  | failed e | abort e | panicked t | blocked => simp [succeeds] at h

/-- The cursor behind a turn that hands on a context and follows no request. -/
def onward (x : Executor ω ι C) (t : Turn ω ι C) (v : C) (c : Control C) : Cursor C :=
  match x.discipline with
  | .phased => x.pass t.begun (t.cursor.left t.step t.marks) v c
  | .addressed _ _ => x.goOn (t.cursor.left t.step t.marks) v c

@[simp] theorem onward_control (v : C) (c : Control C) : (x.onward t v c).control = c := by
  unfold onward
  split <;> rfl

@[simp] theorem onward_jumps (v : C) (c : Control C) : (x.onward t v c).jumps = t.cursor.jumps := by
  unfold onward
  split <;> rfl

theorem onward_position (v : C) (c : Control C) (hp : x.plan.policy.prePostAbort = false) :
    (x.onward t v c).position = x.plan.advance c.shortCircuited (t.cursor.position + 1) := by
  unfold onward
  split
  · exact nextPosition_of_not_prePostAbort _ _ _ hp
  · rfl

/-- What a turn that leads on has come to. -/
inductive GoesOn (x : Executor ω ι C) (t : Turn ω ι C) : Cursor C → Prop
  | next {v : C} (d : Nanos) (ho : t.outcome = .answered (.ok v)) :
    GoesOn x t (x.onward t v (t.left.recordTiming d true))
  | failed {e : ActionError} {c : Control C} (d : Nanos) (hs : x.succeeds t.outcome = false)
    (hf : x.failure? t.outcome = some e)
    (hc : c = let noted := (noteFailure (t.cursor.left t.step t.marks) d e).2
      if x.plan.policy.shortCircuitOnException then noted.shortCircuit else noted) :
    GoesOn x t (x.onward t (noteFailure (t.cursor.left t.step t.marks) d e).1 c)
  | jumped {signal : JumpSignal} {target : Nat} (d : Nanos) (hs : x.succeeds t.outcome = true)
    (ho : t.outcome = .answered (.error (.jump signal))) (hj : t.cursor.jumps < x.discipline.budget)
    (hl : x.plan.indexOf? signal.label = some target) (hb : x.plan.preBoundary ≤ target) :
    GoesOn x t ⟨x.plan.advance t.left.shortCircuited target, t.cursor.value,
      t.left.recordTiming d true, t.cursor.jumps + 1⟩

theorem Takes.goesOn (ht : x.Takes t) (hl : t.led = .ok next) : x.GoesOn t next := by
  obtain ⟨cur, step, o, m, led⟩ := t
  obtain rfl : led = .ok next := hl
  cases hx : x.discipline with
  | phased =>
    have honward (v : C) (c : Control C) : x.pass (cur.begun step) (cur.left step m) v c =
        x.onward ⟨cur, step, o, m, .ok next⟩ v c := by rw [onward, hx]; rfl
    have h : x.PhasedLead (cur.begun step) (cur.left step m) o (.ok next) := ht.phasedLead hx
    cases h with
    | next v d =>
      rw [honward]
      exact .next d rfl
    | @failed f e d hf =>
      rw [honward]
      exact .failed d (by simp [succeeds, hx]) (by simp [failure?, hx, hf, Except.toOption]) rfl
  | addressed k sleeper =>
    have honward (v : C) (c : Control C) : x.goOn (cur.left step m) v c =
        x.onward ⟨cur, step, o, m, .ok next⟩ v c := by rw [onward, hx]
    have h : x.AddressedLead k sleeper (cur.left step m) o (.ok next) := ht.addressedLead hx
    cases h with
    | next v d =>
      rw [honward]
      exact .next d rfl
    | passed e d hp =>
      rw [honward]
      exact .failed d (by simp [succeeds]) (by simp [failure?, hx, Outcome.failed?]) (by rw [hp]; rfl)
    | jumped d hj hl hb hm =>
      exact .jumped d (by simp [succeeds, hx]) rfl (by rw [hx]; exact hj) hl hb

end Executor
end Pipeworks
