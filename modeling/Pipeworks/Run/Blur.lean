import Mathlib.Data.List.Forall2
import Pipeworks.Lifecycle.Bound
import Pipeworks.Metrics.Event
import Pipeworks.Run.Executor
/-!
# Blurs

A blur says which times and which worlds are not told apart. Controls and events that differ in such times
alone are not told apart either. Actions, sinks and sleepers that respect a blur do the same in worlds that
are not told apart. The exact blur tells everything apart, so that all of them respect it
(`exact_respects` and what follows it); a blur of the clock lets time pass unseen.
-/

namespace Pipeworks

structure Blur (ω : Type) [Host ω] where
  /-- Readings of the clock, or spans of time, that are not told apart. -/
  time : Nanos → Nanos → Prop
  world : ω → ω → Prop
  now {w w' : ω} (h : world w w') : time (Host.now w) (Host.now w')
  sub {a a' b b' : Nanos} (ha : time a a') (hb : time b b') : time (a - b) (a' - b')
  saturate {d d' : Nanos} (h : time d d') : time (saturate d) (saturate d')
  newRun {w w' : ω} (h : world w w') :
    (Host.newRun w).1 = (Host.newRun w').1 ∧ world (Host.newRun w).2 (Host.newRun w').2

namespace Blur
variable {ω ι C : Type} [Host ω]

/-- Tells everything apart. -/
def exact (ω : Type) [Host ω] : Blur ω where
  time := Eq
  world := Eq
  now h := congrArg Host.now h
  sub ha hb := by rw [ha, hb]
  saturate h := congrArg _ h
  newRun h := by rw [h]; exact ⟨rfl, rfl⟩

/-- Timings of the same step with the same success. -/
structure Timed (B : Blur ω) (t t' : Timing) : Prop where
  phase : t.phase = t'.phase
  index : t.index = t'.index
  name : t.name = t'.name
  success : t.success = t'.success
  elapsed : B.time t.elapsed t'.elapsed

/-- Controls that differ in times alone. -/
structure Like (B : Blur ω) (c c' : Control C) : Prop where
  pipeline : c.pipeline = c'.pipeline
  run : c.run = c'.run
  startedAt : B.time c.startedAt c'.startedAt
  shortCircuited : c.shortCircuited = c'.shortCircuited
  errors : c.errors = c'.errors
  timings : List.Forall₂ B.Timed c.timings.toList c'.timings.toList
  phase : c.phase = c'.phase
  index : c.index = c'.index
  step : c.step = c'.step
  handler : c.handler = c'.handler

/-- Events that differ in times alone. -/
inductive Near (B : Blur ω) : Event → Event → Prop
  | same (e : Event) : Near B e e
  | stepEnd (n : Nat) (label : String) {d d' : Nanos} (success : Bool) (h : B.time d d') :
    Near B (.stepEnd n label d success) (.stepEnd n label d' success)
  | pipelineEnd (success : Bool) {d d' : Nanos} (error : Option String) (h : B.time d d') :
    Near B (.pipelineEnd success d error) (.pipelineEnd success d' error)

/-! ### What respects a blur -/

/-- Applied to what is not told apart, the outcome and the marks are the same. -/
def Respects (B : Blur ω) (apply : C → Control C → ω → Applied ω C) : Prop :=
  ∀ v c c' w w', B.Like c c' → B.world w w' →
    (apply v c w).outcome = (apply v c' w').outcome ∧ (apply v c w).marks = (apply v c' w').marks ∧
      B.world (apply v c w).world (apply v c' w').world

def RespectsSink (B : Blur ω) (sink : Sink ω) : Prop :=
  ∀ hd e e' w w', B.Near e e' → B.world w w' → B.world (sink hd e w) (sink hd e' w')

def RespectsSleeper (B : Blur ω) (sleeper : Sleeper ω) : Prop :=
  ∀ d w w', B.world w w' →
    (sleeper d w).1 = (sleeper d w').1 ∧ B.world (sleeper d w).2 (sleeper d w').2

/-- A change of the world that is not seen, on whichever side it is made. -/
structure Unseen (B : Blur ω) (f : ω → ω) : Prop where
  left {w w' : ω} (h : B.world w w') : B.world (f w) w'
  right {w w' : ω} (h : B.world w w') : B.world w (f w')

/-! ### The exact blur -/

theorem eq_of_like_exact {c c' : Control C} (h : (exact ω).Like c c') : c = c' := by
  have ht : c.timings = c'.timings := by
    refine Trail.eq_of_toList_eq (List.forall₂_eq_eq_eq ▸ h.timings.imp fun t t' h => ?_)
    cases t
    cases t'
    obtain ⟨rfl, rfl, rfl, rfl, rfl⟩ := h
    rfl
  obtain ⟨p, r, a, b, e, t, ph, i, n, hd⟩ := c
  obtain ⟨p', r', a', b', e', t', ph', i', n', hd'⟩ := c'
  obtain ⟨rfl, rfl, rfl, rfl, rfl, -, rfl, rfl, rfl, rfl⟩ := h
  obtain rfl : t = t' := ht
  rfl

theorem eq_of_near_exact {e e' : Event} (h : (exact ω).Near e e') : e = e' := by
  cases h with
  | same e => rfl
  | stepEnd n label success h => rw [show _ = _ from h]
  | pipelineEnd success error h => rw [show _ = _ from h]

theorem exact_respects (apply : C → Control C → ω → Applied ω C) : (exact ω).Respects apply := by
  intro v c c' w w' hc hw
  obtain rfl := eq_of_like_exact hc
  obtain rfl : w = w' := hw
  exact ⟨rfl, rfl, rfl⟩

theorem exact_respectsSink (sink : Sink ω) : (exact ω).RespectsSink sink := by
  intro hd e e' w w' he hw
  obtain rfl := eq_of_near_exact he
  exact congrArg (sink hd e) hw

theorem exact_respectsSleeper (sleeper : Sleeper ω) : (exact ω).RespectsSleeper sleeper := by
  intro d w w' hw
  obtain rfl : w = w' := hw
  exact ⟨rfl, rfl⟩

/-! ### Controls -/

variable {B : Blur ω} {c c' : Control C}

theorem Like.beginStep (h : B.Like c c') (phase : Phase) (n : Nat) (name : String) :
    B.Like (c.beginStep phase n name) (c'.beginStep phase n name) :=
  ⟨h.pipeline, h.run, h.startedAt, h.shortCircuited, h.errors, h.timings, rfl, rfl, rfl, h.handler⟩

theorem Like.recordTiming (h : B.Like c c') {d d' : Nanos} (hd : B.time d d') (ok : Bool) :
    B.Like (c.recordTiming d ok) (c'.recordTiming d' ok) := by
  refine ⟨h.pipeline, h.run, h.startedAt, h.shortCircuited, h.errors, ?_, h.phase, h.index, h.step,
    h.handler⟩
  simp only [Control.recordTiming, Trail.toList_push]
  have hlast : B.Timed ⟨c.phase, c.index, c.step, Pipeworks.saturate d, ok⟩
      ⟨c'.phase, c'.index, c'.step, Pipeworks.saturate d', ok⟩ :=
    ⟨h.phase, h.index, h.step, rfl, B.saturate hd⟩
  exact List.rel_append h.timings (.cons hlast .nil)

theorem Like.errorHere (h : B.Like c c') (e : ActionError) : c.errorHere e = c'.errorHere e := by
  simp only [Control.errorHere, h.pipeline, h.phase, h.index, h.step]

theorem Like.absorb (h : B.Like c c') (m : Control.Marks) : B.Like (c.absorb m) (c'.absorb m) := by
  refine ⟨h.pipeline, h.run, h.startedAt, ?_, ?_, h.timings, h.phase, h.index, h.step, h.handler⟩
  · exact congrArg (· || m.shortCircuit) h.shortCircuited
  · have he : c.errorHere = c'.errorHere := funext h.errorHere
    simp only [Control.absorb, h.errors, he]

theorem Like.shortCircuit (h : B.Like c c') : B.Like c.shortCircuit c'.shortCircuit :=
  ⟨h.pipeline, h.run, h.startedAt, rfl, h.errors, h.timings, h.phase, h.index, h.step, h.handler⟩

/-- An error is recorded alike, and the handler makes the same context of it. -/
theorem Like.recordError (h : B.Like c c') (v : C) (e : ActionError) :
    (c.recordError v e).1 = (c'.recordError v e).1 ∧
      B.Like (c.recordError v e).2 (c'.recordError v e).2 := by
  constructor
  · simp only [Control.recordError, h.handler, h.errorHere]
  · rw [Control.absorb_recorded, Control.absorb_recorded]
    exact h.absorb _

theorem like_new (name : String) (handler : Option (ErrorHandler C)) {w w' : ω} (h : B.world w w') :
    B.Like (Control.new name handler w).1 (Control.new name handler w').1 ∧
      B.world (Control.new name handler w).2 (Control.new name handler w').2 := by
  obtain ⟨hrun, hw⟩ := B.newRun h
  exact ⟨⟨rfl, hrun, B.now hw, rfl, rfl, .nil, rfl, rfl, rfl, rfl⟩, hw⟩

end Blur
end Pipeworks
