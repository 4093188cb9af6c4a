import Pipeworks.Run.Effects

/-!
# The steps that a phased run begins

`phased_run_through`: a phased run begins the steps of pre, of main and of post in the order they are
declared, each phase up to and including the first step that `Stops` it, main only if the run is not
short-circuited by then, and nothing behind a step that ends the run. Each step is applied once, to the
fold of what those before it handed on. The executor knows only positions; `Ahead` says what is left of
a phase at a cursor, and `Course.through` walks one phase with it.
-/

namespace Pipeworks

namespace Outcome
variable {C : Type}

/-- The step answered, and not with an abort. -/
def passes : Outcome C → Bool
  | .answered (.error (.abort _)) => false
  | .answered _ => true
  | _ => false

end Outcome

/-- The context that a step hands on where jumps are not followed: its answer, or what the handler
makes of the context that the step was given. -/
def Definition.handOn {ω ι C : Type} (d : Definition ω ι C) (ctx : C) (t : Turn ω ι C) : C :=
  match t.outcome with
  | .answered (.ok next) => next
  | .answered (.error f) =>
    match f.asActionError with
    | .ok e => d.handler.elim ctx (· ctx ⟨d.name, t.step.phase, t.step.index, t.step.name, e⟩)
    | .error _ => ctx
  | _ => ctx

namespace Turn
variable {ω ι C : Type}

/-- The log of errors grew during the turn. -/
def Logged (t : Turn ω ι C) : Prop := t.begun.errors.toList.length < t.ended.errors.toList.length

/-- The run was short-circuited during the turn. -/
def Tripped (t : Turn ω ι C) : Prop :=
  t.begun.shortCircuited = false ∧ t.ended.shortCircuited = true

/-- Whether a turn is the last of its phase. Main stops once the run is short-circuited; pre and post
stop, if the policy asks for it, with a turn that logged an error or short-circuited the run. -/
def Stops (policy : ErrorPolicy) (t : Turn ω ι C) : Phase → Prop
  | .main => t.ended.shortCircuited = true
  | .pre | .post => policy.prePostAbort = true ∧ (t.Logged ∨ t.Tripped)

/-- Whether the run is short-circuited behind these turns, its first ones. -/
def flagBehind (ts : List (Turn ω ι C)) : Bool :=
  ts.getLast?.elim false (·.ended.shortCircuited)

/-- No turn ended the run. -/
def allPass (ts : List (Turn ω ι C)) : Bool := ts.all (·.outcome.passes)

/-- The turns begin the steps of a listing in order, up to and including the first one that stops the
phase or ends the run. -/
inductive Through (stops : Turn ω ι C → Prop) : List (BoundStep ω ι C) → List (Turn ω ι C) → Prop
  | done : Through stops [] []
  | cut {t : Turn ω ι C} (rest : List (BoundStep ω ι C)) (hp : t.outcome.passes = false) :
    Through stops (t.step :: rest) [t]
  | stopped {t : Turn ω ι C} (rest : List (BoundStep ω ι C)) (hp : t.outcome.passes = true)
    (hs : stops t) : Through stops (t.step :: rest) [t]
  | next {t : Turn ω ι C} {rest : List (BoundStep ω ι C)} {ts : List (Turn ω ι C)}
    (hp : t.outcome.passes = true) (hs : ¬stops t) (h : Through stops rest ts) :
    Through stops (t.step :: rest) (t :: ts)

end Turn

/-! ### Positions of a phase -/

namespace Plan
variable {ω ι C : Type} (p : Plan ω ι C)

/-- The first position behind a phase. -/
def boundary : Phase → Nat
  | .pre => p.preBoundary
  | .main => p.postBoundary
  | .post => p.size

theorem phaseEnd_eq (n : Nat) : p.phaseEnd n = p.boundary (p.phaseAt n) := by
  unfold phaseEnd; cases p.phaseAt n <;> rfl

/-- The steps of a phase from a position of it to its end. -/
structure Rest (ph : Phase) (n : Nat) (l : List (BoundStep ω ι C)) : Prop where
  step : ∀ i, i < l.length → p.step? (n + i) = l[i]?
  phase : ∀ i, i < l.length → p.phaseAt (n + i) = ph
  stop : n + l.length = p.boundary ph

theorem rest_pre : p.Rest .pre 0 p.definition.steps.pre := by
  refine ⟨fun i hi => ?_, fun i hi => ?_, Nat.zero_add _⟩
  · rw [Nat.zero_add]; exact p.step?_pre hi
  · rw [Nat.zero_add]; exact p.phaseAt_eq_pre.2 hi

theorem rest_main : p.Rest .main p.preBoundary p.definition.steps.main := by
  have hlt {i : Nat} (hi : i < p.definition.steps.main.length) :
      p.preBoundary + i < p.postBoundary := Nat.add_lt_add_left hi _
  refine ⟨fun i hi => p.step?_main (hlt hi), fun i hi => ?_, rfl⟩
  exact p.phaseAt_eq_main.2 ⟨Nat.le_add_right .., hlt hi⟩

theorem rest_post : p.Rest .post p.postBoundary p.definition.steps.post :=
  ⟨fun i _ => p.step?_post i, fun _ _ => p.phaseAt_eq_post.2 (Nat.le_add_right ..), p.size_eq.symm⟩

variable {p} {ph : Phase} {n : Nat} {s : BoundStep ω ι C} {l : List (BoundStep ω ι C)}

theorem Rest.tail (h : p.Rest ph n (s :: l)) : p.Rest ph (n + 1) l := by
  refine ⟨fun i hi => ?_, fun i hi => ?_, ?_⟩
  · have := h.step (i + 1) (Nat.succ_lt_succ hi)
    rwa [List.getElem?_cons_succ, Nat.add_comm i, ← Nat.add_assoc] at this
  · have := h.phase (i + 1) (Nat.succ_lt_succ hi)
    rwa [Nat.add_comm i, ← Nat.add_assoc] at this
  · have := h.stop; rw [List.length_cons] at this; omega

end Plan

/-! ### Turns of a phased run -/

/-- The control of a run of the definition: it is for its pipeline, with its handler. -/
structure Control.Serves {ω ι C : Type} (d : Definition ω ι C) (c : Control C) : Prop where
  pipeline : c.pipeline = d.name
  handler : c.handler = d.handler

namespace Executor
variable {ω ι C : Type} {x : Executor ω ι C} {t : Turn ω ι C}

theorem Takes.ok_of_passes (hx : x.discipline = .phased) (ht : x.Takes t)
    (hp : t.outcome.passes = true) (hs : t.cursor.control.Serves x.plan.definition) :
    ∃ next, t.led = .ok next ∧
      next.position = x.nextPosition t.cursor.position t.begun next.control ∧
      next.value = x.plan.definition.handOn t.cursor.value t ∧
      next.control.Serves x.plan.definition := by
  obtain ⟨cur, step, o, m, led⟩ := t
  have hl : x.PhasedLead (cur.begun step) (cur.left step m) o led := ht.phasedLead hx
  cases hl with
  | next v d => exact ⟨_, rfl, rfl, rfl, hs.pipeline, hs.handler⟩
  | @failed f e d hf =>
    refine ⟨_, rfl, rfl, ?_, ?_⟩
    · simp only [Definition.handOn, hf, ← hs.pipeline, ← hs.handler]
      rfl
    · split <;> exact ⟨hs.pipeline, hs.handler⟩
  | aborted e => cases hp
  | panicked t => cases hp
  | blocked h => cases hp

theorem Takes.error_of_not_passes (hx : x.discipline = .phased) (ht : x.Takes t)
    (hp : t.outcome.passes = false) :
    ∃ e, t.led = .error e ∧ ∀ err, t.outcome = .fault (.abort err) → e = .failed err := by
  obtain ⟨cur, step, o, m, led⟩ := t
  have hl : x.PhasedLead (cur.begun step) (cur.left step m) o led := ht.phasedLead hx
  cases hl with
  | next v d => cases hp
  | @failed f e d hf => cases f <;> cases hp; cases hf
  | aborted e => exact ⟨_, rfl, fun err h => by cases h; rfl⟩
  | panicked t => exact ⟨_, rfl, fun err h => by cases h⟩
  | blocked h => exact ⟨_, rfl, fun err h => by cases h⟩

theorem Takes.passes_of_ok {next : Cursor C} (hx : x.discipline = .phased) (ht : x.Takes t)
    (hl : t.led = .ok next) : t.outcome.passes = true := by
  cases hp : t.outcome.passes with
  | true => rfl
  | false =>
    obtain ⟨e, he, -⟩ := ht.error_of_not_passes hx hp
    cases hl.symm.trans he

theorem Takes.not_passes_of_error {e : Ending ω ι C (C × Control C)} (hx : x.discipline = .phased)
    (ht : x.Takes t) (hs : t.cursor.control.Serves x.plan.definition) (hl : t.led = .error e) :
    t.outcome.passes = false := by
  cases hp : t.outcome.passes with
  | false => rfl
  | true =>
    obtain ⟨next, hn, -⟩ := ht.ok_of_passes hx hp hs
    cases hl.symm.trans hn

/-! ### Positions of a phased run -/

variable {n : Nat}

theorem endsPhase_iff (hm : x.plan.phaseAt n ≠ .main) :
    x.endsPhase n t.begun t.ended = true ↔ t.Stops x.plan.policy (x.plan.phaseAt n) := by
  simp only [endsPhase, Trail.size_eq_length, Bool.and_eq_true, Bool.or_eq_true, decide_eq_true_eq,
    bne_iff_ne, Bool.not_eq_true', and_assoc, Turn.Stops, Turn.Logged, Turn.Tripped]
  cases hph : x.plan.phaseAt n with
  | main => exact absurd hph hm
  | pre => simp
  | post => simp

theorem nextPosition_of_stops (h : t.Stops x.plan.policy (x.plan.phaseAt n)) :
    x.nextPosition n t.begun t.ended =
      x.plan.advance t.ended.shortCircuited (x.plan.boundary (x.plan.phaseAt n)) := by
  unfold nextPosition
  by_cases hm : x.plan.phaseAt n = .main
  · rw [hm] at h ⊢
    have hf : t.ended.shortCircuited = true := h
    obtain ⟨hl, hr⟩ := x.plan.phaseAt_eq_main.1 hm
    have he : x.endsPhase n t.begun t.ended = false := by simp [endsPhase, hm]
    -- Main ends by the flag: what is left of it is passed over from the next position.
    rw [he, hf, if_neg Bool.false_ne_true, x.plan.advance_true (Nat.le_succ_of_le hl),
      Plan.boundary, x.plan.advance_true x.plan.preBoundary_le]
    omega
  · rw [if_pos ((endsPhase_iff hm).2 h), Plan.phaseEnd_eq]

theorem nextPosition_of_not_stops (h : ¬t.Stops x.plan.policy (x.plan.phaseAt n)) :
    x.nextPosition n t.begun t.ended = x.plan.advance t.ended.shortCircuited (n + 1) := by
  have he : ¬x.endsPhase n t.begun t.ended = true := by
    by_cases hm : x.plan.phaseAt n = .main
    · simp [endsPhase, hm]
    · exact fun he => h ((endsPhase_iff hm).1 he)
  rw [nextPosition, if_neg he]

theorem nextPosition_inside (h : ¬t.Stops x.plan.policy (x.plan.phaseAt n))
    (hn : n + 1 < x.plan.boundary (x.plan.phaseAt n)) :
    x.nextPosition n t.begun t.ended = n + 1 := by
  rw [nextPosition_of_not_stops h]
  cases hph : x.plan.phaseAt n with
  | pre => rw [hph] at hn; exact x.plan.advance_of_lt _ hn
  | main =>
    rw [hph] at h
    rw [Bool.eq_false_iff.2 h, Plan.advance_false]
  | post =>
    exact x.plan.advance_of_le _ (Nat.le_succ_of_le (x.plan.phaseAt_eq_post.1 hph))

/-! ### One phase -/

/-- What is left of a phase at a cursor: its steps from there on, or none if the cursor is behind it. -/
inductive Ahead (p : Plan ω ι C) (ph : Phase) (cur : Cursor C) : List (BoundStep ω ι C) → Prop
  | behind (h : cur.position = p.advance cur.control.shortCircuited (p.boundary ph)) : Ahead p ph cur []
  | inside {s : BoundStep ω ι C} {l : List (BoundStep ω ι C)} (h : p.Rest ph cur.position (s :: l)) :
    Ahead p ph cur (s :: l)

namespace Ahead
variable {p : Plan ω ι C} {ph : Phase} {cur next : Cursor C} {s : BoundStep ω ι C}
  {l : List (BoundStep ω ι C)}

theorem rest (h : Ahead p ph cur (s :: l)) : p.Rest ph cur.position (s :: l) := by
  cases h with
  | inside h => exact h

theorem step (h : Ahead p ph cur (s :: l)) : p.step? cur.position = some s :=
  h.rest.step 0 (Nat.zero_lt_succ _)

theorem phase (h : Ahead p ph cur (s :: l)) : p.phaseAt cur.position = ph :=
  h.rest.phase 0 (Nat.zero_lt_succ _)

end Ahead

theorem ahead_of_stops {ph : Phase} {next : Cursor C} {s : BoundStep ω ι C}
    {l : List (BoundStep ω ι C)} (ha : Ahead x.plan ph t.cursor (s :: l)) (hl : t.led = .ok next)
    (hn : next.position = x.nextPosition t.cursor.position t.begun next.control)
    (hs : t.Stops x.plan.policy ph) : Ahead x.plan ph next [] := by
  have hs' : t.Stops x.plan.policy (x.plan.phaseAt t.cursor.position) := by rwa [ha.phase]
  have h := nextPosition_of_stops hs'
  rw [Turn.ended_of_ok hl, ← hn, ha.phase] at h
  exact .behind h

theorem ahead_of_not_stops {ph : Phase} {next : Cursor C} {s : BoundStep ω ι C}
    {l : List (BoundStep ω ι C)} (ha : Ahead x.plan ph t.cursor (s :: l)) (hl : t.led = .ok next)
    (hn : next.position = x.nextPosition t.cursor.position t.begun next.control)
    (hs : ¬t.Stops x.plan.policy ph) : Ahead x.plan ph next l := by
  have hs' : ¬t.Stops x.plan.policy (x.plan.phaseAt t.cursor.position) := by rwa [ha.phase]
  have hstop := ha.rest.tail.stop
  cases l with
  | nil =>
    have h := nextPosition_of_not_stops hs'
    rw [Turn.ended_of_ok hl, ← hn] at h
    exact .behind (hstop ▸ h)
  | cons u l =>
    have hlt : t.cursor.position + 1 < x.plan.boundary (x.plan.phaseAt t.cursor.position) := by
      rw [ha.phase, ← hstop, List.length_cons]; omega
    have h := nextPosition_inside hs' hlt
    rw [Turn.ended_of_ok hl, ← hn] at h
    exact .inside (h ▸ ha.rest.tail)

/-- The run takes up the steps of a phase in order. If none of them ends the run, it goes on behind
the phase, with the flag as the last of them left it. -/
theorem Course.through {ph : Phase} {cur : Cursor C} {ts : List (Turn ω ι C)}
    {l : List (BoundStep ω ι C)} (hx : x.discipline = .phased) (hs : cur.control.Serves x.plan.definition)
    (h : x.Course cur ts) (ha : Ahead x.plan ph cur l) :
    ∃ us vs, ts = us ++ vs ∧ Turn.Through (·.Stops x.plan.policy ph) l us ∧
      (Turn.allPass us = false → vs = []) ∧
      (Turn.allPass us = true → ∃ next, x.Course next vs ∧ Ahead x.plan ph next [] ∧
        next.control.Serves x.plan.definition ∧
        next.control.shortCircuited = us.getLast?.elim cur.control.shortCircuited (·.ended.shortCircuited)) := by
  induction l generalizing cur ts with
  | nil =>
    exact ⟨[], ts, rfl, .done, fun hp => absurd hp (by simp [Turn.allPass]), fun _ => ⟨cur, h, ha, hs, rfl⟩⟩
  | cons s l ih =>
    cases h with
    | done hd => rw [ha.step] at hd; cases hd
    | @last t e ht hl =>
      obtain rfl : s = t.step := Option.some.inj (ha.step.symm.trans ht.step)
      have hp := ht.not_passes_of_error hx hs hl
      have hall : Turn.allPass [t] = false := by simp [Turn.allPass, hp]
      exact ⟨[t], [], rfl, .cut l hp, fun _ => rfl, fun h => by rw [hall] at h; cases h⟩
    | @cons t next ts ht hl hc =>
      obtain rfl : s = t.step := Option.some.inj (ha.step.symm.trans ht.step)
      have hp := ht.passes_of_ok hx hl
      obtain ⟨next', hl', hpos, -, hs'⟩ := ht.ok_of_passes hx hp hs
      obtain rfl : next = next' := Except.ok.inj (hl.symm.trans hl')
      have hf := Turn.ended_of_ok hl
      by_cases hst : t.Stops x.plan.policy ph
      · refine ⟨[t], ts, rfl, .stopped l hp hst, fun h => ?_, fun _ => ⟨next, hc, ?_, hs', ?_⟩⟩
        · simp [Turn.allPass, hp] at h
        · exact ahead_of_stops ha hl hpos hst
        · simp [hf]
      · obtain ⟨us, vs, rfl, hthr, hcut, hgo⟩ := ih hs' hc (ahead_of_not_stops ha hl hpos hst)
        have hall : Turn.allPass (t :: us) = Turn.allPass us := by simp [Turn.allPass, hp]
        refine ⟨t :: us, vs, rfl, .next hp hst hthr, fun h => hcut (hall ▸ h), fun h => ?_⟩
        obtain ⟨last, hlast, hahead, hserves, hflag⟩ := hgo (hall ▸ h)
        refine ⟨last, hlast, hahead, hserves, hflag.trans ?_⟩
        rw [List.getLast?_cons, Option.elim_some, ← hf]
        cases us.getLast? <;> rfl

/-! ### The three phases -/

theorem ahead_of_rest {p : Plan ω ι C} {ph : Phase} {cur : Cursor C} {l : List (BoundStep ω ι C)}
    (hr : p.Rest ph cur.position l)
    (hb : p.advance cur.control.shortCircuited (p.boundary ph) = p.boundary ph) : Ahead p ph cur l := by
  cases l with
  | nil => exact .behind (by rw [hb]; exact hr.stop)
  | cons s l => exact .inside hr

theorem Course.through_post {cur : Cursor C} {ts : List (Turn ω ι C)} (hx : x.discipline = .phased)
    (hs : cur.control.Serves x.plan.definition) (h : x.Course cur ts)
    (hpos : cur.position = x.plan.postBoundary) :
    Turn.Through (·.Stops x.plan.policy .post) x.plan.definition.steps.post ts := by
  have hadv (b : Bool) : x.plan.advance b (x.plan.boundary .post) = x.plan.size :=
    x.plan.advance_of_le b x.plan.postBoundary_le
  have ha := ahead_of_rest (hpos ▸ x.plan.rest_post) (hadv cur.control.shortCircuited)
  obtain ⟨us, vs, rfl, hthr, hcut, hgo⟩ := h.through hx hs ha
  suffices hv : vs = [] by rwa [hv, List.append_nil]
  cases hp : Turn.allPass us with
  | false => exact hcut hp
  | true =>
    obtain ⟨last, hc, ⟨hl⟩, -, -⟩ := hgo hp
    have hend : x.plan.step? last.position = none :=
      (x.plan.step?_eq_none_iff _).2 (Nat.le_of_eq (hl.trans (hadv _)).symm)
    cases hc with
    | done h => rfl
    | last ht hl => rw [ht.step] at hend; cases hend
    | cons ht hl hc => rw [ht.step] at hend; cases hend

/-- A phased run from the first step goes through pre, main and post. -/
theorem Course.phases {cur : Cursor C} {ts : List (Turn ω ι C)} (hx : x.discipline = .phased)
    (hs : cur.control.Serves x.plan.definition) (h : x.Course cur ts) (hpos : cur.position = 0)
    (hflag : cur.control.shortCircuited = false) :
    ∃ pre main post, ts = pre ++ main ++ post ∧
      Turn.Through (·.Stops x.plan.policy .pre) x.plan.definition.steps.pre pre ∧
      (if Turn.allPass pre && !Turn.flagBehind pre then
        Turn.Through (·.Stops x.plan.policy .main) x.plan.definition.steps.main main else main = []) ∧
      (if Turn.allPass (pre ++ main) then
        Turn.Through (·.Stops x.plan.policy .post) x.plan.definition.steps.post post else post = []) := by
  have ha := ahead_of_rest (hpos ▸ x.plan.rest_pre) (by rw [hflag, x.plan.advance_false])
  obtain ⟨pre, vs, rfl, hpre, hcut, hgo⟩ := h.through hx hs ha
  cases hall : Turn.allPass pre with
  | false =>
    obtain rfl := hcut hall
    exact ⟨pre, [], [], by simp, hpre, by simp [hall], by simp [hall]⟩
  | true =>
    obtain ⟨c₁, hc₁, ⟨hp₁⟩, hs₁, hf₁⟩ := hgo hall
    rw [hflag] at hf₁
    cases hb : Turn.flagBehind pre with
    | true =>
      -- Main is passed over.
      have hpos₁ : c₁.position = x.plan.postBoundary := by
        rw [hp₁, hf₁.trans hb, Plan.boundary, x.plan.advance_true (Nat.le_refl _)]
        exact Nat.max_eq_right x.plan.preBoundary_le
      have hpost := hc₁.through_post hx hs₁ hpos₁
      exact ⟨pre, [], vs, by simp, hpre, by simp [hall, hb], by simpa [hall] using hpost⟩
    | false =>
      have hpos₁ : c₁.position = x.plan.preBoundary := by
        rw [hp₁, hf₁.trans hb, Plan.boundary, x.plan.advance_false]
      have hadv (b : Bool) : x.plan.advance b (x.plan.boundary .main) = x.plan.boundary .main :=
        x.plan.advance_of_le b (Nat.le_refl _)
      have ha₁ := ahead_of_rest (hpos₁ ▸ x.plan.rest_main) (hadv c₁.control.shortCircuited)
      obtain ⟨main, vs, rfl, hmain, hcut, hgo⟩ := hc₁.through hx hs₁ ha₁
      cases hall' : Turn.allPass main with
      | false =>
        obtain rfl := hcut hall'
        refine ⟨pre, main, [], by simp, hpre, by simpa [hall, hb] using hmain, ?_⟩
        simp only [Turn.allPass, List.all_append] at hall hall' ⊢
        simp [hall, hall']
      | true =>
        obtain ⟨c₂, hc₂, ⟨hp₂⟩, hs₂, -⟩ := hgo hall'
        have hpost := hc₂.through_post hx hs₂ (hp₂.trans (hadv _))
        refine ⟨pre, main, vs, by simp, hpre, by simpa [hall, hb] using hmain, ?_⟩
        simp only [Turn.allPass, List.all_append] at hall hall' ⊢
        simpa [hall, hall'] using hpost

/-! ### What a phased run hands on -/

/-- Each step is given the fold of what the steps before it handed on. -/
theorem Course.value_eq {cur : Cursor C} {us vs ts : List (Turn ω ι C)} (hx : x.discipline = .phased)
    (h : x.Course cur ts) (hs : cur.control.Serves x.plan.definition) (hts : ts = us ++ t :: vs) :
    t.cursor.value = us.foldl x.plan.definition.handOn cur.value := by
  induction h generalizing us with
  | done h => simp at hts
  | @last u e hu hl =>
    cases us with
    | nil =>
      obtain ⟨rfl, -⟩ := List.cons.inj hts
      rfl
    | cons v us => simp at hts
  | @cons u next ts hu hl hc ih =>
    cases us with
    | nil =>
      obtain ⟨rfl, -⟩ := List.cons.inj hts
      rfl
    | cons v us =>
      obtain ⟨rfl, hrest⟩ := List.cons.inj hts
      obtain ⟨next', hl', -, hv, hs'⟩ := hu.ok_of_passes hx (hu.passes_of_ok hx hl) hs
      obtain rfl : next = next' := Except.ok.inj (hl.symm.trans hl')
      rw [ih hs' hrest, hv, List.foldl_cons]

theorem Course.endOf_of_allPass {cur : Cursor C} {ts : List (Turn ω ι C)}
    (hx : x.discipline = .phased) (h : x.Course cur ts) (hs : cur.control.Serves x.plan.definition)
    (hp : Turn.allPass ts = true) :
    ∃ c, endOf cur ts = .completed (ts.foldl x.plan.definition.handOn cur.value, c) := by
  induction h with
  | done h => exact ⟨_, rfl⟩
  | last ht hl =>
    have hf := ht.not_passes_of_error hx hs hl
    simp [Turn.allPass, hf] at hp
  | @cons t next ts ht hl hc ih =>
    have hpt := ht.passes_of_ok hx hl
    obtain ⟨next', hl', -, hv, hs'⟩ := ht.ok_of_passes hx hpt hs
    obtain rfl : next = next' := Except.ok.inj (hl.symm.trans hl')
    obtain ⟨c, hc⟩ := ih hs' (by simpa [Turn.allPass, hpt] using hp)
    exact ⟨c, by rw [endOf_cons ts hl, hc, hv, List.foldl_cons]⟩

theorem Course.endOf_of_abort {cur : Cursor C} {ts : List (Turn ω ι C)} {e : EngineError}
    (hx : x.discipline = .phased) (h : x.Course cur ts) (ht : t ∈ ts)
    (ho : t.outcome = .fault (.abort e)) : endOf cur ts = .failed e := by
  induction h with
  | done h => cases ht
  | @last u e' hu hl =>
    obtain rfl := List.mem_singleton.1 ht
    obtain ⟨e'', he, hab⟩ := hu.error_of_not_passes hx (by rw [ho]; rfl)
    rw [endOf_singleton, Turn.ending, he]
    exact hab e ho
  | @cons u next us hu hl hc ih =>
    rw [endOf_cons us hl]
    rcases List.mem_cons.1 ht with rfl | ht
    · have hp := hu.passes_of_ok hx hl
      rw [ho] at hp
      cases hp
    · exact ih ht

end Executor

variable {ω ι C : Type} [Host ω] [LocalAction ω ι C]

/-- The law of phased runs. Pre is begun first; main follows if the run goes on and is not
short-circuited, post follows if the run goes on; each phase is begun in the order it is declared, up
to and including the first step that stops it. Each step is applied once, to the fold of what the steps
before it handed on. An abort ends the run with its error; a run that no step ended is completed with
the fold of what its steps handed on. -/
theorem phased_run_through (d : Definition ω ι C) (sink : Sink ω) (input : C) (s : Store ω ι) :
    let x : Executor ω ι C := .phased (.ofDefinition d) sink
    ∃ pre main post : List (Turn ω ι C),
      x.trace none input s = pre ++ main ++ post ∧
      Turn.Through (·.Stops d.policy .pre) d.steps.pre pre ∧
      (if Turn.allPass pre && !Turn.flagBehind pre then
        Turn.Through (·.Stops d.policy .main) d.steps.main main else main = []) ∧
      (if Turn.allPass (pre ++ main) then
        Turn.Through (·.Stops d.policy .post) d.steps.post post else post = []) ∧
      x.Account none input s (pre ++ main ++ post) (x.execute none input s) ∧
      (∀ us t vs, pre ++ main ++ post = us ++ t :: vs →
        t.Performed ∧ t.cursor.value = us.foldl d.handOn input) ∧
      (∀ t ∈ pre ++ main ++ post, ∀ e, t.outcome = .fault (.abort e) →
        (x.execute none input s).1 = .failed e) ∧
      (Turn.allPass (pre ++ main ++ post) = true → ∃ r, (x.execute none input s).1 = .completed r ∧
        r.context = (pre ++ main ++ post).foldl d.handOn input) := by
  intro x
  have hx : x.discipline = .phased := rfl
  have hs : (x.opening none s).1.Serves x.plan.definition := ⟨rfl, rfl⟩
  have hstart := x.startAt_none input (x.opening none s).1
  have hacc := x.account_trace none input s
  obtain ⟨hc, u, hrun⟩ := Executor.course_trace hstart
  obtain ⟨pre, main, post, heq, hpre, hmain, hpost⟩ := hc.phases hx hs rfl rfl
  rw [heq] at hc hrun hacc
  refine ⟨pre, main, post, heq, hpre, hmain, hpost, hacc, fun us t vs hts => ?_, fun t ht e ho => ?_,
    fun hp => ?_⟩
  · obtain ⟨s', -, hperformed⟩ := hacc.performed us t vs hts
    exact ⟨⟨_, hperformed⟩, hc.value_eq hx hs hts⟩
  · rw [hrun, hc.endOf_of_abort hx ht ho, Executor.finish_failed]
  · obtain ⟨c, hend⟩ := hc.endOf_of_allPass hx hs hp
    rw [hrun, hend]
    exact ⟨_, Executor.finish_completed rfl, rfl⟩

end Pipeworks
