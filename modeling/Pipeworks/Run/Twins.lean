import Pipeworks.Lifecycle.Renewal
import Pipeworks.Run.History
/-!
# Twin executors

Two executors are twins if they differ only in bound actions that a blur does not tell apart. Their runs
keep step: `Twins.drive` follows them turn by turn, with the pools of the one at rest between two turns, and
`Twins.execute` says that they come to the same end.
-/

namespace Pipeworks
namespace Blur
variable {ω ι C : Type} [Host ω] [LocalAction ω ι C]

/-- Bound steps that differ in their actions alone, which are twins. -/
structure TwinStep (B : Blur ω) (s : Store ω ι) (step step' : BoundStep ω ι C) : Prop where
  phase : step.phase = step'.phase
  index : step.index = step'.index
  label : step.label = step'.label
  name : step.name = step'.name
  expectedInput : step.expectedInput = step'.expectedInput
  action : B.Twin C s step.action step'.action

structure TwinPlan (B : Blur ω) (s : Store ω ι) (p q : Plan ω ι C) : Prop where
  name : p.name = q.name
  policy : p.policy = q.policy
  handler : p.definition.handler = q.definition.handler
  labels : p.labels = q.labels
  pre : List.Forall₂ (B.TwinStep s) p.definition.steps.pre q.definition.steps.pre
  main : List.Forall₂ (B.TwinStep s) p.definition.steps.main q.definition.steps.main
  post : List.Forall₂ (B.TwinStep s) p.definition.steps.post q.definition.steps.post

variable {B : Blur ω} {s₀ s t : Store ω ι} {p q : Plan ω ι C}

theorem TwinStep.mono {step step' : BoundStep ω ι C} (h : B.TwinStep s step step')
    (hk : B.Keeps C s t) : B.TwinStep t step step' :=
  ⟨h.phase, h.index, h.label, h.name, h.expectedInput, h.action.mono hk⟩

theorem TwinStep.displayLabel {step step' : BoundStep ω ι C} (h : B.TwinStep s step step') :
    step.displayLabel = step'.displayLabel := by
  rw [BoundStep.displayLabel, BoundStep.displayLabel, h.label, h.name]

namespace TwinPlan

theorem preBoundary (h : B.TwinPlan s p q) : p.preBoundary = q.preBoundary := h.pre.length_eq

theorem postBoundary (h : B.TwinPlan s p q) : p.postBoundary = q.postBoundary := by
  rw [Plan.postBoundary, Plan.postBoundary, h.preBoundary, h.main.length_eq]

theorem size (h : B.TwinPlan s p q) : p.size = q.size := by
  rw [p.size_eq, q.size_eq, h.postBoundary, h.post.length_eq]

theorem advance (h : B.TwinPlan s p q) (b : Bool) (n : Nat) : p.advance b n = q.advance b n := by
  rw [Plan.advance, Plan.advance, h.preBoundary, h.postBoundary]

theorem phaseAt (h : B.TwinPlan s p q) (n : Nat) : p.phaseAt n = q.phaseAt n := by
  rw [Plan.phaseAt, Plan.phaseAt, h.preBoundary, h.postBoundary]

theorem phaseEnd (h : B.TwinPlan s p q) (n : Nat) : p.phaseEnd n = q.phaseEnd n := by
  rw [Plan.phaseEnd, Plan.phaseEnd, h.phaseAt, h.preBoundary, h.postBoundary, h.size]

theorem indexOf? (h : B.TwinPlan s p q) (label : String) : p.indexOf? label = q.indexOf? label := by
  rw [Plan.indexOf?, Plan.indexOf?, h.labels]

theorem mono (h : B.TwinPlan s p q) (hk : B.Keeps C s t) : B.TwinPlan t p q :=
  ⟨h.name, h.policy, h.handler, h.labels, h.pre.imp fun _ _ h => h.mono hk,
    h.main.imp fun _ _ h => h.mono hk, h.post.imp fun _ _ h => h.mono hk⟩

theorem flat (h : B.TwinPlan s p q) :
    List.Forall₂ (B.TwinStep s) p.definition.steps.flat q.definition.steps.flat :=
  List.rel_append (List.rel_append h.pre h.main) h.post

theorem step?_cases (h : B.TwinPlan s p q) (n : Nat) :
    (p.step? n = none ∧ q.step? n = none) ∨
      ∃ step step', p.step? n = some step ∧ q.step? n = some step' ∧ B.TwinStep s step step' := by
  rw [p.step?_eq, q.step?_eq]
  have hlen := h.flat.length_eq
  by_cases hn : n < p.definition.steps.flat.length
  · have hn' : n < q.definition.steps.flat.length := hlen ▸ hn
    exact .inr ⟨_, _, List.getElem?_eq_getElem hn, List.getElem?_eq_getElem hn', h.flat.get hn hn'⟩
  · have hn' : ¬n < q.definition.steps.flat.length := hlen ▸ hn
    exact .inl ⟨List.getElem?_eq_none (Nat.le_of_not_lt hn), List.getElem?_eq_none (Nat.le_of_not_lt hn')⟩

theorem expectedInput (h : B.TwinPlan s p q) (n : Nat) :
    (p.step? n).bind (·.expectedInput) = (q.step? n).bind (·.expectedInput) := by
  rcases h.step?_cases n with ⟨hp, hq⟩ | ⟨step, step', hp, hq, ht⟩
  · rw [hp, hq]
  · rw [hp, hq]
    exact ht.expectedInput

end TwinPlan

/-- Executors of twin plans that report and jump alike. -/
structure Twins (B : Blur ω) (s : Store ω ι) (x y : Executor ω ι C) : Prop where
  plan : B.TwinPlan s x.plan y.plan
  sink : x.sink = y.sink
  respectsSink : B.RespectsSink y.sink
  discipline : x.discipline = y.discipline
  respectsSleeper (m : Nat) (sleeper : Sleeper ω) (h : y.discipline = .addressed m sleeper) :
    B.RespectsSleeper sleeper
  expectedOutput : x.expectedOutput = y.expectedOutput

/-! ### Runs that keep step -/

/-- Cursors at the same position with the same context. -/
structure Meets (B : Blur ω) (cur cur' : Cursor C) : Prop where
  position : cur.position = cur'.position
  value : cur.value = cur'.value
  jumps : cur.jumps = cur'.jumps
  control : B.Like cur.control cur'.control

/-- Stores in worlds that are not told apart; the pools at rest in `s₀` are so in the first of them. -/
structure Beside (B : Blur ω) (C : Type) [LocalAction ω ι C] (s₀ s s' : Store ω ι) : Prop where
  world : B.world s.world s'.world
  kept : B.Keeps C s₀ s

theorem Beside.trans {B : Blur ω} {s₀ s s' t t' : Store ω ι} (h : B.Beside C s₀ s s')
    (h' : B.Beside C s t t') : B.Beside C s₀ t t' :=
  ⟨h'.world, h.kept.trans h'.kept⟩

/-- Work on two stores came to the same error, or to results that fit each other in the first of them. -/
inductive Yields (B : Blur ω) (C : Type) [LocalAction ω ι C] (s₀ : Store ω ι) {ε α β : Type}
    (R : Store ω ι → α → β → Prop) : Except ε α × Store ω ι → Except ε β × Store ω ι → Prop
  | ok {a : α} {b : β} {s s' : Store ω ι} (h : R s a b) (hs : B.Beside C s₀ s s') :
    Yields B C s₀ R (.ok a, s) (.ok b, s')
  | error (e : ε) {s s' : Store ω ι} (hs : B.Beside C s₀ s s') :
    Yields B C s₀ R (.error e, s) (.error e, s')

/-- Contexts and controls that differ in times alone. -/
def LikeEnd (B : Blur ω) (a a' : C × Control C) : Prop := a.1 = a'.1 ∧ B.Like a.2 a'.2

/-- Results that differ in times alone. -/
structure LikeResult (B : Blur ω) (r r' : RunResult C) : Prop where
  context : r.context = r'.context
  shortCircuited : r.shortCircuited = r'.shortCircuited
  errors : r.errors = r'.errors
  timings : List.Forall₂ B.Timed r.timings r'.timings

/-- Runs come to the same end. One that is blocked holds what it has borrowed. -/
inductive Ends (B : Blur ω) (s₀ : Store ω ι) {α : Type} (R : α → α → Prop) :
    Ending ω ι C α × Store ω ι → Ending ω ι C α × Store ω ι → Prop
  | completed {a a' : α} {s s' : Store ω ι} (h : R a a') (hs : B.Beside C s₀ s s') :
    Ends B s₀ R (.completed a, s) (.completed a', s')
  | failed (e : EngineError) {s s' : Store ω ι} (hs : B.Beside C s₀ s s') :
    Ends B s₀ R (.failed e, s) (.failed e, s')
  | panicked (text : String) {s s' : Store ω ι} (hs : B.Beside C s₀ s s') :
    Ends B s₀ R (.panicked text, s) (.panicked text, s')
  | blocked (h h' : Held ω ι C) (s s' : Store ω ι) : Ends B s₀ R (.blocked h, s) (.blocked h', s')

theorem Ends.of_keeps {B : Blur ω} {s₀ s₁ : Store ω ι} {α : Type} {R : α → α → Prop}
    {r r' : Ending ω ι C α × Store ω ι} (h : B.Ends s₁ R r r') (hk : B.Keeps C s₀ s₁) :
    B.Ends s₀ R r r' := by
  cases h with
  | completed h hs => exact .completed h ⟨hs.world, hk.trans hs.kept⟩
  | failed e hs => exact .failed e ⟨hs.world, hk.trans hs.kept⟩
  | panicked text hs => exact .panicked text ⟨hs.world, hk.trans hs.kept⟩
  | blocked h h' s s' => exact .blocked h h' s s'

theorem Ends.beside {B : Blur ω} {s₀ : Store ω ι} {α : Type} {R : α → α → Prop}
    {r r' : Ending ω ι C α × Store ω ι} (h : B.Ends s₀ R r r') :
    (∃ held, r.1 = .blocked held) ∨ B.Beside C s₀ r.2 r'.2 := by
  cases h with
  | completed h hs => exact .inr hs
  | failed e hs => exact .inr hs
  | panicked text hs => exact .inr hs
  | blocked h h' s s' => exact .inl ⟨h, rfl⟩

/-- Turns lead to cursors that meet, or runs come to the same end. -/
inductive Agrees (B : Blur ω) (s₀ : Store ω ι) :
    Except (Ending ω ι C (C × Control C)) (Cursor C) × Store ω ι →
    Except (Ending ω ι C (C × Control C)) (Cursor C) × Store ω ι → Prop
  | next {cur cur' : Cursor C} {s s' : Store ω ι} (h : B.Meets cur cur') (hs : B.Beside C s₀ s s') :
    Agrees B s₀ (.ok cur, s) (.ok cur', s')
  | ended {e e' : Ending ω ι C (C × Control C)} {s s' : Store ω ι}
    (h : B.Ends s₀ B.LikeEnd (e, s) (e', s')) :
    Agrees B s₀ (.error e, s) (.error e', s')

variable {x y : Executor ω ι C} {cur cur' : Cursor C} {b b' c c' : Control C} {s' : Store ω ι}
  {step step' : BoundStep ω ι C} {d d' : Nanos}

theorem Beside.of_world {w w' : ω} (h : B.Beside C s₀ s s') (hw : B.world w w') :
    B.Beside C s₀ { s with world := w } { s' with world := w' } :=
  ⟨hw, h.kept.trans (keeps_world s w)⟩

theorem Beside.pause {sleeper : Sleeper ω} (h : B.Beside C s₀ s s') (hsl : B.RespectsSleeper sleeper)
    (d : Nanos) :
    (sleeper.pause d s).1 = (sleeper.pause d s').1 ∧
      B.Beside C s₀ (sleeper.pause d s).2 (sleeper.pause d s').2 := by
  unfold Sleeper.pause
  split
  · exact ⟨rfl, h⟩
  · obtain ⟨ho, hw⟩ := hsl d _ _ h.world
    exact ⟨ho, h.of_world hw⟩

namespace Twins

theorem emit (T : B.Twins s₀ x y) (hc : B.Like c c') {e e' : Event} (he : B.Near e e')
    (h : B.Beside C s₀ s s') : B.Beside C s₀ (x.emit c e s) (y.emit c' e' s') := by
  unfold Executor.emit
  rw [T.sink, T.plan.name, hc.run]
  exact h.of_world (T.respectsSink _ _ _ _ _ he h.world)

theorem nextPosition (T : B.Twins s₀ x y) (hb : B.Like b b') (hc : B.Like c c') (n : Nat) :
    x.nextPosition n b c = y.nextPosition n b' c' := by
  simp only [Executor.nextPosition, Executor.endsPhase, T.plan.advance, T.plan.phaseAt, T.plan.phaseEnd,
    T.plan.policy, hb.errors, hb.shortCircuited, hc.errors, hc.shortCircuited]
  rfl

theorem pass (T : B.Twins s₀ x y) (h : B.Meets cur cur') (hb : B.Like b b') (hc : B.Like c c') (v : C) :
    B.Meets (x.pass b cur v c) (y.pass b' cur' v c') := by
  refine ⟨?_, rfl, h.jumps, hc⟩
  show x.nextPosition cur.position b c = y.nextPosition cur'.position b' c'
  rw [T.nextPosition hb hc, h.position]

theorem goOn (T : B.Twins s₀ x y) (h : B.Meets cur cur') (hc : B.Like c c') (v : C) :
    B.Meets (x.goOn cur v c) (y.goOn cur' v c') := by
  refine ⟨?_, rfl, h.jumps, hc⟩
  show x.plan.advance c.shortCircuited (cur.position + 1) =
    y.plan.advance c'.shortCircuited (cur'.position + 1)
  rw [T.plan.advance, hc.shortCircuited, h.position]

theorem settlePhased (T : B.Twins s₀ x y) (hstep : B.TwinStep s₀ step step') (hb : B.Like b b')
    (h : B.Meets cur cur') (hd : B.time d d') (a : Answer C) (hs : B.Beside C s₀ s s') :
    B.Yields C s₀ (fun _ => B.Meets) (x.settlePhased step b cur d a s)
      (y.settlePhased step' b' cur' d' a s') := by
  have ht (ok : Bool) := h.control.recordTiming hd ok
  cases a with
  | ok v =>
    simp only [Executor.settlePhased, hstep.displayLabel, h.position]
    exact .ok (T.pass h hb (ht true) v) (T.emit (ht true) (.stepEnd _ _ _ hd) hs)
  | error f =>
    simp only [Executor.settlePhased, hstep.displayLabel, h.position]
    cases hf : f.asActionError with
    | error e => exact .error e (T.emit (ht false) (.same _) hs)
    | ok e =>
      obtain ⟨hv, hc⟩ := (ht false).recordError cur.value e
      have hs₁ := T.emit (ht false) (.same (.stepError cur'.position step'.displayLabel e.display)) hs
      have hs₂ := T.emit (ht false) (.stepEnd cur'.position step'.displayLabel false hd) hs₁
      have hc' := hc.shortCircuit
      rw [h.value] at hv hc hc'
      simp only [hv, T.plan.policy, h.value]
      refine .ok ?_ hs₂
      rw [← hv]
      split
      · exact T.pass h hb hc' _
      · exact T.pass h hb hc _

theorem transfer (T : B.Twins s₀ x y) {m : Nat} {sleeper : Sleeper ω} (hsl : B.RespectsSleeper sleeper)
    (hstep : B.TwinStep s₀ step step') (h : B.Meets cur cur') (signal : JumpSignal)
    (hs : B.Beside C s₀ s s') :
    B.Yields C s₀ (fun _ => B.Meets) (x.transfer m sleeper step cur signal s)
      (y.transfer m sleeper step' cur' signal s') := by
  unfold Executor.transfer
  rw [h.jumps, T.plan.name, T.plan.indexOf?, T.plan.preBoundary]
  split
  · exact .error _ hs
  · cases hl : y.plan.indexOf? signal.label with
    | none => exact .error _ hs
    | some target =>
      simp only
      split
      · exact .error _ hs
      · have hs₁ := T.emit h.control (.same (.jump step'.displayLabel signal.label signal.delayMillis)) hs
        rw [hstep.displayLabel]
        obtain ⟨ho, hs₂⟩ := hs₁.pause hsl signal.delay
        generalize sleeper.pause signal.delay (x.emit _ _ s) = r at ho hs₂ ⊢
        generalize sleeper.pause signal.delay (y.emit _ _ s') = r' at ho hs₂ ⊢
        obtain ⟨slept, t⟩ := r
        obtain ⟨slept', t'⟩ := r'
        obtain rfl : slept = slept' := ho
        cases slept with
        | error e => exact .error e hs₂
        | ok u =>
          simp only [T.plan.expectedInput, h.value]
          split
          · exact .error _ hs₂
          · refine .ok ⟨?_, rfl, rfl, h.control⟩ hs₂
            show x.plan.advance cur.control.shortCircuited target =
              y.plan.advance cur'.control.shortCircuited target
            rw [T.plan.advance, h.control.shortCircuited]

theorem settleAddressed (T : B.Twins s₀ x y) {m : Nat} {sleeper : Sleeper ω}
    (hsl : B.RespectsSleeper sleeper) (hstep : B.TwinStep s₀ step step') (h : B.Meets cur cur')
    (hd : B.time d d') (a : Answer C) (hs : B.Beside C s₀ s s') :
    B.Yields C s₀ (fun _ => B.Meets) (x.settleAddressed m sleeper step cur d a s)
      (y.settleAddressed m sleeper step' cur' d' a s') := by
  have ht (ok : Bool) := h.control.recordTiming hd ok
  cases a with
  | ok v =>
    simp only [Executor.settleAddressed, hstep.displayLabel, h.position]
    exact .ok (T.goOn h (ht true) v) (T.emit (ht true) (.stepEnd _ _ _ hd) hs)
  | error f =>
    cases f with
    | jump signal =>
      have he : B.Near (.stepEnd cur.position step.displayLabel d true)
          (.stepEnd cur'.position step'.displayLabel d' true) := by
        rw [h.position, hstep.displayLabel]
        exact .stepEnd _ _ _ hd
      have hm : B.Meets { cur with control := cur.control.recordTiming d true }
          { cur' with control := cur'.control.recordTiming d' true } :=
        ⟨h.position, h.value, h.jumps, ht true⟩
      exact T.transfer hsl hstep hm signal (T.emit (ht true) he hs)
    | abort e =>
      simp only [Executor.settleAddressed, hstep.displayLabel, h.position]
      exact .error e (T.emit (ht false) (.same _) hs)
    | failed e =>
      obtain ⟨hv, hc⟩ := (ht false).recordError cur.value e
      have hs₁ := T.emit (ht false) (.same (.stepError cur'.position step'.displayLabel e.display)) hs
      rw [h.value] at hv hc
      simp only [Executor.settleAddressed, hstep.displayLabel, h.position, T.plan.policy, h.value, hv]
      split
      · exact .error _ hs₁
      · exact .ok (T.goOn h hc _) hs₁

theorem settle (T : B.Twins s₀ x y) (hstep : B.TwinStep s₀ step step') (hb : B.Like b b')
    (h : B.Meets cur cur') (hd : B.time d d') (a : Answer C) (hs : B.Beside C s₀ s s') :
    B.Yields C s₀ (fun _ => B.Meets) (x.settle step b cur d a s) (y.settle step' b' cur' d' a s') := by
  unfold Executor.settle
  rw [T.discipline]
  cases hy : y.discipline with
  | phased => exact T.settlePhased hstep hb h hd a hs
  | addressed m sleeper => exact T.settleAddressed (T.respectsSleeper m sleeper hy) hstep h hd a hs

theorem lead (T : B.Twins s₀ x y) (hstep : B.TwinStep s₀ step step') (hb : B.Like b b')
    (h : B.Meets cur cur') (hd : B.time d d') (o : Outcome C) (hs : o ≠ .blocked → B.Beside C s₀ s s') :
    B.Agrees s₀ (x.lead step b cur d o s) (y.lead step' b' cur' d' o s') := by
  cases o with
  | panicked text => exact .ended (.panicked text (hs nofun))
  | blocked => exact .ended (.blocked _ _ _ _)
  | answered a =>
    have hs := hs nofun
    -- The span is read off both clocks behind the application.
    have hset := T.settle hstep hb h (B.sub (B.now hs.world) hd) a hs
    change B.Yields C s₀ _ (x.settle step b cur (Host.now s - d) a s)
      (y.settle step' b' cur' (Host.now s' - d') a s') at hset
    simp only [Executor.lead]
    generalize x.settle step b cur _ a s = r at hset ⊢
    generalize y.settle step' b' cur' _ a s' = r' at hset ⊢
    cases hset with
    | ok h hs => exact .next h hs
    | error e hs => exact .ended (.failed e hs)

theorem turn (T : B.Twins s₀ x y) (hstep : B.TwinStep s₀ step step') (h : B.Meets cur cur')
    (hs : B.Beside C s₀ s s') :
    B.Agrees s₀ ((x.turn cur step s).1.led, (x.turn cur step s).2)
      ((y.turn cur' step' s').1.led, (y.turn cur' step' s').2) := by
  have hb : B.Like (cur.begun step) (cur'.begun step') := by
    unfold Cursor.begun
    rw [hstep.phase, hstep.index, hstep.name]
    exact h.control.beginStep _ _ _
  have hs₁ := T.emit hb (.same (.stepStart cur'.position step'.displayLabel)) hs
  obtain ⟨ho, hm, hw, hk⟩ := (hstep.action.mono hs₁.kept).apply hb hs₁.world cur'.value
  simp only [Executor.turn, h.position, h.value, hstep.displayLabel]
  generalize x.emit _ _ s = r at hs₁ ho hm hw hk ⊢
  generalize y.emit _ _ s' = r' at hs₁ ho hm hw hk ⊢
  generalize step.action.apply cur'.value _ r = a at ho hm hw hk ⊢
  generalize step'.action.apply cur'.value _ r' = a' at ho hm hw hk ⊢
  have hmeets : B.Meets (cur.left step a.marks) (cur'.left step' a'.marks) :=
    ⟨h.position, h.value, h.jumps, hm ▸ hb.absorb a.marks⟩
  rw [← ho]
  exact T.lead hstep hb hmeets (B.now hs₁.world) a.outcome fun hne => ⟨hw, hs₁.kept.trans (hk hne)⟩

theorem step_of_meets (T : B.Twins s₀ x y) (h : B.Meets cur cur')
    (hs : x.plan.step? cur.position = some step) :
    ∃ step', y.plan.step? cur'.position = some step' ∧ B.TwinStep s₀ step step' := by
  rw [← h.position]
  rcases T.plan.step?_cases cur.position with ⟨hn, -⟩ | ⟨u, u', hu, hu', ht⟩
  · cases hn.symm.trans hs
  · obtain rfl := Option.some.inj (hu.symm.trans hs)
    exact ⟨u', hu', ht⟩

theorem drive (T : B.Twins s₀ x y) (h : B.Meets cur cur') (hs : B.Beside C s₀ s s') :
    B.Ends s₀ B.LikeEnd (x.drive cur s) (y.drive cur' s') := by
  -- Along the turns of the first run; where it has a step the other one has the twin.
  fun_induction Executor.history x cur s generalizing cur' s' with
  | case1 cur s hn =>
    have hn' : y.plan.step? cur'.position = none := by
      rw [Plan.step?_eq_none_iff] at hn ⊢
      rwa [← h.position, ← T.plan.size]
    rw [Executor.drive_of_none hn, Executor.drive_of_none hn', h.value]
    exact .completed ⟨rfl, h.control⟩ hs
  | case2 cur s step hstep e hl =>
    obtain ⟨step', hstep', ht⟩ := T.step_of_meets h hstep
    have hag := T.turn ht h hs
    rw [hl] at hag
    rw [Executor.drive_of_error hstep hl]
    generalize hled : (y.turn cur' step' s').1.led = led at hag
    cases hag with
    | ended hends => rwa [Executor.drive_of_error hstep' hled]
  | case3 cur s step hstep next hl ih =>
    obtain ⟨step', hstep', ht⟩ := T.step_of_meets h hstep
    have hag := T.turn ht h hs
    rw [hl] at hag
    rw [Executor.drive_of_ok hstep hl]
    generalize hled : (y.turn cur' step' s').1.led = led at hag
    cases hag with
    | next hnext hs =>
      rw [Executor.drive_of_ok hstep' hled]
      exact ih hnext hs

/-- The ends of runs are reported alike, and their results differ in times alone. -/
theorem finish (T : B.Twins s₀ x y) (hb : B.Like b b') {r r' : Ending ω ι C (C × Control C) × Store ω ι}
    (h : B.Ends s₀ B.LikeEnd r r') : B.Ends s₀ B.LikeResult (x.finish b r) (y.finish b' r') := by
  have hd {s s' : Store ω ι} (hs : B.Beside C s₀ s s') :
      B.time (Executor.finish.elapsed b s) (Executor.finish.elapsed b' s') :=
    B.sub (B.now hs.world) hb.startedAt
  cases h with
  | @completed a a' s s' h hs =>
    obtain ⟨v, c⟩ := a
    obtain ⟨v', c'⟩ := a'
    obtain ⟨rfl, hc⟩ : v = v' ∧ B.Like c c' := h
    simp only [Executor.finish, T.expectedOutput]
    split
    · rw [T.plan.name]
      exact .failed _ (T.emit hb (.pipelineEnd _ _ (hd hs)) hs)
    · have he : c.errors.toList = c'.errors.toList := congrArg Trail.toList hc.errors
      have hevent : B.Near
          (.pipelineEnd (c.result v s).errors.isEmpty (Executor.finish.elapsed b s) none)
          (.pipelineEnd (c'.result v s').errors.isEmpty (Executor.finish.elapsed b' s') none) := by
        simp only [Control.result, he]
        exact .pipelineEnd _ _ (hd hs)
      exact .completed ⟨rfl, hc.shortCircuited, he, hc.timings⟩ (T.emit hb hevent hs)
  | failed e hs => exact .failed e (T.emit hb (.pipelineEnd _ _ (hd hs)) hs)
  | panicked text hs => exact .panicked text hs
  | blocked h h' s s' => exact .blocked h h' s s'

theorem opening (T : B.Twins s₀ x y) (start : Option String) (hs : B.Beside C s₀ s s') :
    B.Like (x.opening start s).1 (y.opening start s').1 ∧
      B.Beside C s₀ (x.opening start s).2 (y.opening start s').2 := by
  obtain ⟨hc, hw⟩ := like_new x.plan.name x.plan.definition.handler hs.world
  have hs₁ := T.emit hc (.same (.pipelineStart start)) (hs.of_world hw)
  have hy : y.opening start s' =
      let c := Control.new x.plan.name x.plan.definition.handler s'
      (c.1, y.emit c.1 (.pipelineStart start) c.2) := by
    rw [T.plan.name, T.plan.handler]
    rfl
  rw [hy]
  exact ⟨hc, hs₁⟩

theorem execute (T : B.Twins s₀ x y) (start : Option String) (input : C) (hs : B.Beside C s₀ s s') :
    B.Ends s₀ B.LikeResult (x.execute start input s) (y.execute start input s') := by
  obtain ⟨hc, hs₁⟩ := T.opening start hs
  have hstart (n : Nat) : B.Meets (⟨n, input, (x.opening start s).1, 0⟩ : Cursor C)
      ⟨n, input, (y.opening start s').1, 0⟩ := ⟨rfl, rfl, rfl, hc⟩
  simp only [Executor.execute, Executor.startAt]
  cases start with
  | none => exact T.finish hc (T.drive (hstart 0) hs₁)
  | some label =>
    simp only [T.plan.indexOf?, T.plan.name]
    cases y.plan.indexOf? label with
    | none => exact T.finish hc (.failed _ hs₁)
    | some n => exact T.finish hc (T.drive (hstart n) hs₁)

end Twins
end Blur
end Pipeworks
