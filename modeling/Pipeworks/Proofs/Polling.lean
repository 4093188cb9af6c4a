import Pipeworks.Bench
import Pipeworks.Proofs.Budget
import Pipeworks.Proofs.LabelTransfers
import Pipeworks.Run.Naps

/-!
# Polling loops

A step polls if it jumps back to its own label on its first calls. `polling_loop`: a run comes to such a step
once, begins it again for every jump, and goes on behind it if the budget allows the jumps; otherwise the run
ends at the step. The run is followed in stretches (`Passes`): steps that proceed one after another, and jumps
of the polling step, which the count of its calls and the count of jumps take note of.
-/

namespace Pipeworks
namespace Turn
variable {ω ι C : Type}

/-- The step handed on a context and did not short-circuit the run. -/
def Proceeds (t : Turn ω ι C) : Prop := (∃ v, t.outcome = .answered (.ok v)) ∧ t.marks.shortCircuit = false

theorem left_shortCircuited {t : Turn ω ι C} (hc : t.cursor.control.shortCircuited = false)
    (hm : t.marks.shortCircuit = false) : t.left.shortCircuited = false := by
  have hb : t.begun.shortCircuited = false := hc
  rw [left, Control.absorb, hb, hm, Bool.or_false]

end Turn

namespace Executor
variable {ω ι C : Type} {x : Executor ω ι C} {t : Turn ω ι C} {m : Nat} {sleeper : Sleeper ω}

/-! ### Turns -/

theorem Takes.next_of_proceeds (hx : x.discipline = .addressed m sleeper) (ht : x.Takes t) (hp : t.Proceeds)
    (hc : t.cursor.control.shortCircuited = false) :
    x.followed? t.cursor t.outcome = none ∧ ∃ next, t.led = .ok next ∧
      next.position = t.cursor.position + 1 ∧ next.jumps = t.cursor.jumps ∧
      next.control.shortCircuited = false ∧ t.outcome = .answered (.ok next.value) := by
  obtain ⟨⟨v, ho⟩, hm⟩ := hp
  have hleft := Turn.left_shortCircuited hc hm
  obtain ⟨cur, step, o, mk, led⟩ := t
  have h : x.AddressedLead m sleeper (cur.left step mk) o led := ht.addressedLead hx
  obtain rfl : o = .answered (.ok v) := ho
  cases h with
  | next v d =>
    refine ⟨rfl, _, rfl, ?_, rfl, hleft, rfl⟩
    have hflag : (cur.left step mk).control.shortCircuited = false := hleft
    simp only [goOn, Control.recordTiming, hflag, Plan.advance_false]
    rfl

theorem Takes.next_of_jump (hx : x.discipline = .addressed m sleeper) (ht : x.Takes t) {signal : JumpSignal}
    (ho : t.outcome = .fault (.jump signal)) (hm : t.marks.shortCircuit = false)
    (hc : t.cursor.control.shortCircuited = false) (hj : t.cursor.jumps < m) {target : Nat}
    (hl : x.plan.indexOf? signal.label = some target) (hb : x.plan.preBoundary ≤ target)
    (hsleeps : ∀ d w, (sleeper d w).1 = .ok ()) {step : BoundStep ω ι C}
    (hs : x.plan.step? target = some step) (hadmits : step.Admits t.cursor.value) :
    x.followed? t.cursor t.outcome = some signal ∧ ∃ next, t.led = .ok next ∧ next.position = target ∧
      next.jumps = t.cursor.jumps + 1 ∧ next.control.shortCircuited = false ∧
      next.value = t.cursor.value := by
  have hleft := Turn.left_shortCircuited hc hm
  have hfollowed : x.followed? t.cursor t.outcome = some signal :=
    followed?_eq_some.2 ⟨ho, admits_iff.2 ⟨by rwa [hx], target, hl, hb⟩⟩
  obtain ⟨cur, st, o, mk, led⟩ := t
  have h : x.AddressedLead m sleeper (cur.left st mk) o led := ht.addressedLead hx
  obtain rfl : o = .fault (.jump signal) := ho
  -- Each check that could refuse the request lets it through.
  cases h with
  | @jumped _ target' d hj' hl' hb' hm' =>
    obtain rfl := Option.some.inj (hl.symm.trans hl')
    have hflag : (cur.left st mk).control.shortCircuited = false := hleft
    refine ⟨hfollowed, _, rfl, ?_, rfl, hleft, rfl⟩
    simp only [hflag, Plan.advance_false]
  | overBudget signal hj' => exact absurd hj (Nat.not_lt.2 hj')
  | unknown hj' hl' => cases hl.symm.trans hl'
  | intoPre hj' hl' hb' =>
    obtain rfl := Option.some.inj (hl.symm.trans hl')
    exact absurd hb (Nat.not_le.2 hb')
  | @sleepless signal w e hj' hd hs' => cases (hsleeps signal.delay w).symm.trans hs'
  | @mismatch _ target' marker hj' hl' hb' hm' =>
    obtain rfl := Option.some.inj (hl.symm.trans hl')
    obtain ⟨step', hs', he, ht'⟩ := Plan.refuses_of_filter hm'
    obtain rfl := Option.some.inj (hs.symm.trans hs')
    cases (hadmits marker he).symm.trans ht'

/-! ### Stretches of a run -/

variable [Host ω] [LocalAction ω ι C]

/-- A run from a cursor takes these steps, follows these requests and comes to another cursor. -/
inductive Passes (x : Executor ω ι C) : Cursor C → Store ω ι → List (BoundStep ω ι C) → List JumpSignal →
    Cursor C → Store ω ι → Prop
  | refl (cur : Cursor C) (s : Store ω ι) : Passes x cur s [] [] cur s
  | step {cur next last : Cursor C} {s t : Store ω ι} {step : BoundStep ω ι C}
    {steps : List (BoundStep ω ι C)} {signals : List JumpSignal}
    (hs : x.plan.step? cur.position = some step) (hl : (x.turn cur step s).1.led = .ok next)
    (h : Passes x next (x.turn cur step s).2 steps signals last t) :
    Passes x cur s (step :: steps) ((x.followed? cur (x.turn cur step s).1.outcome).toList ++ signals) last t

namespace Passes
variable {cur mid last : Cursor C} {s t u : Store ω ι} {steps steps' : List (BoundStep ω ι C)}
  {signals signals' : List JumpSignal}

theorem cons {next : Cursor C} {step : BoundStep ω ι C} {signal? : Option JumpSignal}
    (hs : x.plan.step? cur.position = some step) (hl : (x.turn cur step s).1.led = .ok next)
    (hf : x.followed? cur (x.turn cur step s).1.outcome = signal?)
    (h : x.Passes next (x.turn cur step s).2 steps signals last t) :
    x.Passes cur s (step :: steps) (signal?.toList ++ signals) last t := by
  rw [← hf]
  exact .step hs hl h

theorem history_eq (h : x.Passes cur s steps signals last t) : ∃ ts, x.history cur s = ts ++ x.history last t ∧
    ts.map (·.step) = steps ∧ x.followed ts = signals := by
  induction h with
  | refl cur s => exact ⟨[], rfl, rfl, rfl⟩
  | @step cur next last s t step steps signals hs hl h ih =>
    obtain ⟨ts, hts, rfl, rfl⟩ := ih
    refine ⟨(x.turn cur step s).1 :: ts, ?_, rfl, followed_cons _ _⟩
    rw [history_of_ok hs hl, hts, List.cons_append]

theorem drive_eq (h : x.Passes cur s steps signals last t) : x.drive cur s = x.drive last t := by
  induction h with
  | refl cur s => rfl
  | step hs hl h ih => rw [drive_of_ok hs hl, ih]

theorem trans (h : x.Passes cur s steps signals mid t) (h' : x.Passes mid t steps' signals' last u) :
    x.Passes cur s (steps ++ steps') (signals ++ signals') last u := by
  induction h with
  | refl cur s => exact h'
  | step hs hl h ih =>
    rw [List.append_assoc]
    exact .step hs hl (ih h')

end Passes

theorem Passes.mem_history {cur last : Cursor C} {s t : Store ω ι} {steps : List (BoundStep ω ι C)}
    {signals : List JumpSignal} (h : x.Passes cur s steps signals last t) {u : Turn ω ι C}
    (hu : u ∈ x.history last t) : u ∈ x.history cur s := by
  obtain ⟨ts, hts, -⟩ := h.history_eq
  rw [hts]
  exact List.mem_append_right ts hu

/-! ### What reports and waits leave alone -/

variable {α : Type} {f : ω → α}

omit [Host ω] in
theorem get_reports (hsink : ∀ h e w, f (x.sink h e w) = f w) (run : RunId) (es : List Event) (s : Store ω ι) :
    f ((es.map Effect.report).foldl (x.carryOut run) s).world = f s.world := by
  induction es generalizing s with
  | nil => rfl
  | cons e es ih => exact (ih _).trans (hsink _ _ _)

omit [Host ω] in
theorem get_aftermath (hx : x.discipline = .addressed m sleeper) (hsink : ∀ h e w, f (x.sink h e w) = f w)
    (hsleeper : ∀ d w, f (sleeper d w).2 = f w) (step : BoundStep ω ι C) (cur : Cursor C) (d : Nanos)
    (o : Outcome C) (run : RunId) (s : Store ω ι) :
    f ((x.aftermath step cur d o).foldl (x.carryOut run) s).world = f s.world := by
  have hwait (d : Nanos) (s : Store ω ι) : f (x.carryOut run s (.wait d)).world = f s.world := by
    simp only [carryOut, hx, Sleeper.pause]
    split
    · rfl
    · exact hsleeper _ _
  have hwaits (l : List Nanos) (s : Store ω ι) :
      f ((l.map Effect.wait).foldl (x.carryOut run) s).world = f s.world := by
    induction l generalizing s with
    | nil => rfl
    | cons d l ih => exact (ih _).trans (hwait d s)
  rw [aftermath, List.foldl_append, hwaits, get_reports hsink]

theorem get_finish (hsink : ∀ h e w, f (x.sink h e w) = f w) (begun : Control C)
    (e : Ending ω ι C (C × Control C)) (s : Store ω ι) : f (x.finish begun (e, s)).2.world = f s.world := by
  obtain ⟨d, hd⟩ := finish_snd (x := x) begun e s
  rw [hd, get_reports hsink]

end Executor

/-! ### The polling step -/

/-- The first step of main polls: it carries the label `l`, counts its calls in `calls` and jumps to `l` with the
delay `d` on the first `n` of them. Nothing else touches the count, no step of pre has the label, and the sleeper
always succeeds. -/
structure Interpreter.Polls {ω ι C : Type} [Host ω] [LocalAction ω ι C] (i : Interpreter ω ι C)
    (pre : List (BoundStep ω ι C)) (poll : BoundStep ω ι C) (rest post : List (BoundStep ω ι C)) (l : String)
    (n : Nat) (d : Nanos) (calls : Cell ω Nat) : Prop where
  plan : i.plan = .ofDefinition i.plan.definition
  steps : i.plan.definition.steps = ⟨pre, poll :: rest, post⟩
  label : poll.label = some l
  action : poll.action = .shared (Testing.jumping l n d calls)
  distinct : ∀ step ∈ pre, step.label ≠ some l
  others : ∀ step ∈ pre ++ rest ++ post, ∀ v c (s : Store ω ι),
    calls.get (step.action.apply v c s).world.world = calls.get s.world
  sink : ∀ h e w, calls.get (i.sink h e w) = calls.get w
  newRun : ∀ w, calls.get (Host.newRun w).2 = calls.get w
  sleeper : ∀ d w, calls.get (i.sleeper d w).2 = calls.get w
  sleeps : ∀ d w, (i.sleeper d w).1 = .ok ()

namespace Interpreter.Polls
variable {ω ι C : Type} [Host ω] [LocalAction ω ι C] {i : Interpreter ω ι C}
  {pre rest post : List (BoundStep ω ι C)} {poll : BoundStep ω ι C} {l : String} {n : Nat} {d : Nanos}
  {calls : Cell ω Nat} {cur : Cursor C} {s : Store ω ι}

theorem flat (h : i.Polls pre poll rest post l n d calls) :
    i.plan.definition.steps.flat = pre ++ poll :: (rest ++ post) := by
  rw [h.steps, ByPhase.flat]
  simp

theorem preBoundary (h : i.Polls pre poll rest post l n d calls) : i.plan.preBoundary = pre.length := by
  rw [Plan.preBoundary, h.steps]

theorem step? (h : i.Polls pre poll rest post l n d calls) : i.plan.step? pre.length = some poll := by
  rw [i.plan.step?_eq, h.flat]
  simp

theorem indexOf? (h : i.Polls pre poll rest post l n d calls) : i.plan.indexOf? l = some pre.length := by
  rw [h.plan, Plan.indexOf?_ofDefinition, h.flat, List.findIdx?_append]
  have hpre : pre.findIdx? (·.label == some l) = none :=
    List.findIdx?_eq_none_iff.2 fun step hstep => beq_eq_false_iff_ne.2 (h.distinct step hstep)
  rw [hpre, List.findIdx?_cons, h.label]
  simp

theorem get_turn (h : i.Polls pre poll rest post l n d calls) (cur : Cursor C) (step : BoundStep ω ι C)
    (s : Store ω ι) : ∃ t : Store ω ι, calls.get t.world = calls.get s.world ∧
      ((i.executor none).turn cur step s).1.outcome = (step.action.apply cur.value (cur.begun step) t).outcome ∧
      ((i.executor none).turn cur step s).1.marks = (step.action.apply cur.value (cur.begun step) t).marks ∧
      calls.get ((i.executor none).turn cur step s).2.world =
        calls.get (step.action.apply cur.value (cur.begun step) t).world.world := by
  have hx := i.discipline_executor none
  obtain ⟨k, hk⟩ := (i.executor none).turn_snd cur step s
  refine ⟨(i.executor none).emit (cur.begun step) (.stepStart cur.position step.displayLabel) s,
    h.sink _ _ _, rfl, rfl, ?_⟩
  rw [hk]
  exact Executor.get_aftermath hx h.sink h.sleeper _ _ _ _ _ _

theorem turn_poll (h : i.Polls pre poll rest post l n d calls) (cur : Cursor C) (s : Store ω ι) :
    ((i.executor none).turn cur poll s).1.outcome =
        (if calls.get s.world < n then .fault (.jump (.after l d)) else .next cur.value) ∧
      ((i.executor none).turn cur poll s).1.marks = .none ∧
      calls.get ((i.executor none).turn cur poll s).2.world = calls.get s.world + 1 := by
  obtain ⟨t, hcount, ho, hm, hg⟩ := h.get_turn cur poll s
  rw [ho, hm, hg, h.action, ← hcount]
  exact ⟨rfl, rfl, calls.get_modify _ _⟩

theorem mem_others (h : i.Polls pre poll rest post l n d calls) {k : Nat} {step : BoundStep ω ι C}
    (hs : i.plan.step? k = some step) (hk : k ≠ pre.length) : step ∈ pre ++ rest ++ post := by
  rw [i.plan.step?_eq, h.flat] at hs
  rcases Nat.lt_or_gt_of_ne hk with hk | hk
  · rw [List.getElem?_append_left hk] at hs
    simp [List.mem_of_getElem? hs]
  · obtain ⟨j, rfl⟩ := Nat.exists_eq_add_of_lt hk
    rw [List.getElem?_append_right (by omega), Nat.add_assoc, Nat.add_sub_cancel_left,
      List.getElem?_cons_succ] at hs
    have := List.mem_of_getElem? hs
    simpa [or_assoc] using Or.inr this

theorem passes_steps (h : i.Polls pre poll rest post l n d calls) {steps more : List (BoundStep ω ι C)}
    (hfrom : i.plan.stepsFrom cur.position = steps ++ more)
    (hne : ∀ k < steps.length, cur.position + k ≠ pre.length)
    (hproceeds : ∀ t ∈ (i.executor none).history cur s, t.cursor.position ≠ pre.length → t.Proceeds)
    (hc : cur.control.shortCircuited = false) :
    ∃ last t, (i.executor none).Passes cur s steps [] last t ∧ last.position = cur.position + steps.length ∧
      last.jumps = cur.jumps ∧ last.control.shortCircuited = false ∧ calls.get t.world = calls.get s.world := by
  have hx := i.discipline_executor none
  induction steps generalizing cur s with
  | nil => exact ⟨cur, s, .refl _ _, rfl, rfl, hc, rfl⟩
  | cons step steps ih =>
    have hs : (i.executor none).plan.step? cur.position = some step := by
      have := congrArg List.head? hfrom
      rw [Plan.stepsFrom, List.head?_drop, ← i.plan.step?_eq] at this
      exact this
    have hpos : cur.position ≠ pre.length := hne 0 (Nat.succ_pos _)
    obtain ⟨hf, next, hl, hn, hj, hflag, -⟩ := (Executor.takes_turn hs).next_of_proceeds hx
      (hproceeds _ (Executor.turn_mem_history hs) hpos) hc
    have hnext : next.position = cur.position + 1 := hn
    obtain ⟨t, ht, -, -, hget⟩ := h.get_turn cur step s
    have hcount : calls.get ((i.executor none).turn cur step s).2.world = calls.get s.world := by
      rw [hget, h.others step (h.mem_others hs hpos), ht]
    have hrest : i.plan.stepsFrom next.position = steps ++ more := by
      rw [i.plan.stepsFrom_of_some hs, List.cons_append, List.cons.injEq] at hfrom
      rw [hnext, hfrom.2]
    have hlater : ∀ k < steps.length, next.position + k ≠ pre.length := fun k hk => by
      have := hne (k + 1) (Nat.succ_lt_succ hk)
      omega
    have hgoes : ∀ t ∈ (i.executor none).history next ((i.executor none).turn cur step s).2,
        t.cursor.position ≠ pre.length → t.Proceeds := fun t ht => by
      refine hproceeds t ?_
      rw [Executor.history_of_ok hs hl]
      exact List.mem_cons_of_mem _ ht
    obtain ⟨last, u, hpasses, hlast, hjumps, hcalm, hu⟩ := ih hrest hlater hgoes hflag
    refine ⟨last, u, .cons hs hl hf hpasses, ?_, hjumps.trans hj, hcalm, hu.trans hcount⟩
    rw [hlast, hnext, List.length_cons]
    omega

/-- The run stands at the polling step, where it has come by as many jumps as there were calls. -/
structure At (i : Interpreter ω ι C) (pre : List (BoundStep ω ι C)) (poll : BoundStep ω ι C)
    (calls : Cell ω Nat) (k : Nat) (cur : Cursor C) (s : Store ω ι) : Prop where
  position : cur.position = pre.length
  calm : cur.control.shortCircuited = false
  jumps : cur.jumps = k
  count : calls.get s.world = k
  admits : poll.Admits cur.value

theorem At.step? (h : i.Polls pre poll rest post l n d calls) {k : Nat} (ha : At i pre poll calls k cur s) :
    (i.executor none).plan.step? cur.position = some poll := by
  rw [ha.position]
  exact h.step?

/-- As long as there are calls that jump and jumps of the budget, the run comes back to the polling step. -/
theorem passes_jumps (h : i.Polls pre poll rest post l n d calls) {j : Nat} (k : Nat)
    (ha : At i pre poll calls j cur s) (hn : j + k ≤ n) (hm : j + k ≤ i.budget) :
    ∃ last t, (i.executor none).Passes cur s (List.replicate k poll) (List.replicate k (.after l d)) last t ∧
      At i pre poll calls (j + k) last t := by
  have hx := i.discipline_executor none
  induction k generalizing j cur s with
  | zero => exact ⟨cur, s, .refl _ _, ha⟩
  | succ k ih =>
    have hs := ha.step? h
    obtain ⟨ho, hmarks, hcount⟩ := h.turn_poll cur s
    rw [ha.count, if_pos (by omega)] at ho
    have hturn := Executor.takes_turn (s := s) hs
    have hplain : ((i.executor none).turn cur poll s).1.marks.shortCircuit = false := by rw [hmarks]; rfl
    have hbudget : cur.jumps < i.budget := by rw [ha.jumps]; omega
    have htarget : (i.executor none).plan.indexOf? (JumpSignal.after l d).label = some pre.length := h.indexOf?
    obtain ⟨hf, next, hl, hpos, hjumps, hcalm, hvalue⟩ := hturn.next_of_jump hx ho hplain ha.calm hbudget
      htarget (Nat.le_of_eq h.preBoundary) h.sleeps h.step? ha.admits
    have hnext : At i pre poll calls (j + 1) next ((i.executor none).turn cur poll s).2 :=
      { position := hpos
        calm := hcalm
        jumps := hjumps.trans (congrArg (· + 1) ha.jumps)
        count := by rw [hcount, ha.count]
        admits := by rw [hvalue]; exact ha.admits }
    obtain ⟨last, t, hpasses, hlast⟩ := ih hnext (by omega) (by omega)
    rw [Nat.add_right_comm, Nat.add_assoc] at hlast
    exact ⟨last, t, .cons hs hl hf hpasses, hlast⟩

theorem passes_poll (h : i.Polls pre poll rest post l n d calls) (ha : At i pre poll calls n cur s) :
    ∃ next t, (i.executor none).Passes cur s [poll] [] next t ∧ next.position = pre.length + 1 ∧
      next.control.shortCircuited = false ∧ calls.get t.world = n + 1 := by
  have hx := i.discipline_executor none
  have hs := ha.step? h
  obtain ⟨ho, hmarks, hcount⟩ := h.turn_poll cur s
  rw [ha.count, if_neg (Nat.lt_irrefl n)] at ho
  obtain ⟨hf, next, hl, hpos, -, hcalm, -⟩ := (Executor.takes_turn (s := s) hs).next_of_proceeds hx
    ⟨⟨_, ho⟩, by rw [hmarks]; rfl⟩ ha.calm
  rw [ha.count] at hcount
  exact ⟨next, _, .cons hs hl hf (.refl _ _), hpos.trans (congrArg (· + 1) ha.position), hcalm, hcount⟩

theorem refused (h : i.Polls pre poll rest post l n d calls) (ha : At i pre poll calls i.budget cur s)
    (hn : i.budget < n) :
    ∃ t : Turn ω ι C, (i.executor none).history cur s = [t] ∧ t.step = poll ∧
      (i.executor none).followed? t.cursor t.outcome = none ∧
      ((i.executor none).drive cur s).1 = .failed (.jump (.budgetExceeded i.plan.name i.budget)) ∧
      calls.get ((i.executor none).drive cur s).2.world = i.budget + 1 := by
  have hx := i.discipline_executor none
  have hs := ha.step? h
  obtain ⟨ho, -, hcount⟩ := h.turn_poll cur s
  rw [ha.count, if_pos hn] at ho
  have hjumps : i.budget ≤ ((i.executor none).turn cur poll s).1.cursor.jumps := Nat.le_of_eq ha.jumps.symm
  have hl := (Executor.takes_turn (s := s) hs).error_of_jumps hx (by rw [ho]; rfl) hjumps
  refine ⟨_, Executor.history_of_error hs hl, rfl, ?_, ?_, ?_⟩
  · refine Option.eq_none_iff_forall_ne_some.2 fun signal hf => ?_
    have := (Executor.admits_iff.1 (Executor.followed?_eq_some.1 hf).2).1
    rw [hx] at this
    exact absurd this (Nat.not_lt.2 hjumps)
  · rw [Executor.drive_of_error hs hl]
    rfl
  · rw [Executor.drive_of_error hs hl, hcount, ha.count]

/-- Where the budget allows the jumps of the polling step, the run takes it once more than it jumps, and then what
is left of the plan. -/
theorem drive_of_le (h : i.Polls pre poll rest post l n d calls) (ha : At i pre poll calls 0 cur s)
    (hproceeds : ∀ t ∈ (i.executor none).history cur s, t.cursor.position ≠ pre.length → t.Proceeds)
    (hn : n ≤ i.budget) :
    ((i.executor none).history cur s).map (·.step) = List.replicate (n + 1) poll ++ rest ++ post ∧
      (i.executor none).followed ((i.executor none).history cur s) = List.replicate n (.after l d) ∧
      (∃ v c, ((i.executor none).drive cur s).1 = .completed (v, c)) ∧
      calls.get ((i.executor none).drive cur s).2.world = n + 1 := by
  obtain ⟨mid, t, hloop, hat⟩ := h.passes_jumps n ha (by omega) (by omega)
  rw [Nat.zero_add] at hat
  obtain ⟨next, t', honce, hpos, hcalm, hcount⟩ := h.passes_poll hat
  have hto := hloop.trans honce
  have hfrom : i.plan.stepsFrom next.position = (rest ++ post) ++ [] := by
    rw [Plan.stepsFrom, h.flat, hpos, List.append_nil, ← List.singleton_append, ← List.append_assoc]
    exact List.drop_left' (by simp)
  obtain ⟨last, u, hrest, hend, -, -, hu⟩ := h.passes_steps hfrom (fun k _ => by omega)
    (fun t ht => hproceeds t (hto.mem_history ht)) hcalm
  have hnone : (i.executor none).plan.step? last.position = none := by
    have hlen : i.plan.definition.steps.flat.length ≤ last.position := by
      rw [h.flat, hend, hpos]
      simp
      omega
    exact (i.plan.step?_eq _).trans (List.getElem?_eq_none_iff.2 hlen)
  have hall := hto.trans hrest
  obtain ⟨ts, hts, hsteps, hsignals⟩ := hall.history_eq
  rw [Executor.history_of_none hnone, List.append_nil] at hts
  rw [hall.drive_eq, Executor.drive_of_none hnone, hts, hsteps, hsignals]
  refine ⟨?_, by simp, ⟨_, _, rfl⟩, hu.trans hcount⟩
  rw [List.replicate_succ', List.append_assoc (List.replicate n poll ++ [poll])]

theorem drive_of_lt (h : i.Polls pre poll rest post l n d calls) (ha : At i pre poll calls 0 cur s)
    (hn : i.budget < n) :
    ((i.executor none).history cur s).map (·.step) = List.replicate (i.budget + 1) poll ∧
      (i.executor none).followed ((i.executor none).history cur s) = List.replicate i.budget (.after l d) ∧
      ((i.executor none).drive cur s).1 = .failed (.jump (.budgetExceeded i.plan.name i.budget)) ∧
      calls.get ((i.executor none).drive cur s).2.world = i.budget + 1 := by
  obtain ⟨mid, t, hloop, hat⟩ := h.passes_jumps i.budget ha (by omega) (by omega)
  rw [Nat.zero_add] at hat
  obtain ⟨u, hu, rfl, hf, hend, hcount⟩ := h.refused hat hn
  obtain ⟨ts, hts, hsteps, hsignals⟩ := hloop.history_eq
  rw [hu] at hts
  rw [hloop.drive_eq, hts]
  refine ⟨?_, ?_, hend, hcount⟩
  · rw [List.map_append, hsteps, List.replicate_succ']
    rfl
  · have hnone : (i.executor none).followed [u] = [] := by simp [Executor.followed, hf]
    rw [Executor.followed_append, hsignals, hnone, List.append_nil]

theorem passes_pre (h : i.Polls pre poll rest post l n d calls) (hcur : cur.position = 0 ∧ cur.jumps = 0)
    (hc : cur.control.shortCircuited = false) (hcount : calls.get s.world = 0)
    (hproceeds : ∀ t ∈ (i.executor none).history cur s, t.cursor.position ≠ pre.length → t.Proceeds)
    (hadmits : ∀ t ∈ (i.executor none).history cur s, t.cursor.position = pre.length →
      poll.Admits t.cursor.value) :
    ∃ mid t, (i.executor none).Passes cur s pre [] mid t ∧ At i pre poll calls 0 mid t := by
  obtain ⟨hpos, hjumps⟩ := hcur
  have hfrom : i.plan.stepsFrom cur.position = pre ++ poll :: (rest ++ post) := by
    rw [hpos, Plan.stepsFrom_zero, h.flat]
  obtain ⟨mid, t, hpasses, hmid, hj, hcalm, ht⟩ := h.passes_steps hfrom (fun k hk => by omega) hproceeds hc
  rw [hpos, Nat.zero_add] at hmid
  have hs : (i.executor none).plan.step? mid.position = some poll := by
    rw [hmid]
    exact h.step?
  refine ⟨mid, t, hpasses, hmid, hcalm, hj.trans hjumps, ht.trans hcount, ?_⟩
  exact hadmits _ (hpasses.mem_history (Executor.turn_mem_history hs)) hmid

end Interpreter.Polls

theorem JumpSignal.delays_replicate (k : Nat) (l : String) (d : Nanos) :
    ((List.replicate k (JumpSignal.after l d)).map (·.delay)).filter (· ≠ 0) =
      if d = 0 then [] else List.replicate k d := by
  rw [List.map_replicate, List.filter_replicate]
  by_cases hd : d = 0 <;> simp [JumpSignal.after, hd]

variable {ω ι C : Type} [Host ω] [LocalAction ω ι C]

/-- The law of polling loops. The first step of main polls: it jumps back to its label with the delay `d` on its
first `n` calls, which are counted from zero. The steps around it proceed, and the contexts that come to it are
those that its marker admits. If the budget of the run allows `n` jumps, the run comes back with a result: it
takes the steps of pre once, the polling step `n + 1` times, and every step behind it once. Otherwise it ends
with `budgetExceeded` at the call behind the last jump of the budget, and takes no step behind. The sleeper is
called once for each jump, with the delay, or not at all if there is none. -/
theorem polling_loop {i : Interpreter ω ι C} {pre rest post : List (BoundStep ω ι C)} {poll : BoundStep ω ι C}
    {l : String} {n : Nat} {d : Nanos} {calls : Cell ω Nat} (h : i.Polls pre poll rest post l n d calls)
    (input : C) (s : Store ω ι) (hfresh : calls.get s.world = 0)
    (hproceeds : ∀ t ∈ i.turns none none input s, t.cursor.position ≠ pre.length → t.Proceeds)
    (hadmits : ∀ t ∈ i.turns none none input s, t.cursor.position = pre.length → poll.Admits t.cursor.value) :
    ∃ ds : List (Effect ω ι C), (i.executor none).Does none input s ds ∧
      (n ≤ i.budget →
        (∃ r, (i.executeFrom none none input s).1 = .completed r) ∧
        calls.get (i.executeFrom none none input s).2.world = n + 1 ∧
        (i.turns none none input s).map (·.step) = pre ++ List.replicate (n + 1) poll ++ rest ++ post ∧
        ((i.executor none).napsFrom s ds).map (·.delay) = if d = 0 then [] else List.replicate n d) ∧
      (i.budget < n →
        (i.executeFrom none none input s).1 = .failed (.jump (.budgetExceeded i.plan.name i.budget)) ∧
        calls.get (i.executeFrom none none input s).2.world = i.budget + 1 ∧
        (i.turns none none input s).map (·.step) = pre ++ List.replicate (i.budget + 1) poll ∧
        ((i.executor none).napsFrom s ds).map (·.delay) = if d = 0 then [] else List.replicate i.budget d) := by
  let x := i.executor none
  let cur : Cursor C := ⟨0, input, (x.opening none s).1, 0⟩
  have hx : x.discipline = .addressed i.budget i.sleeper := i.discipline_executor none
  have hstart : x.startAt none input (x.opening none s).1 = .ok cur := rfl
  have hturns : i.turns none none input s = x.history cur (x.opening none s).2 := rfl
  have hrun : i.executeFrom none none input s = x.finish (x.opening none s).1
      ((x.drive cur (x.opening none s).2).1, (x.drive cur (x.opening none s).2).2) := rfl
  have hopened : calls.get (x.opening none s).2.world = 0 :=
    ((h.sink _ _ _).trans (h.newRun _)).trans hfresh
  have hend (e : Ending ω ι C (C × Control C)) (t : Store ω ι) :
      calls.get (x.finish (x.opening none s).1 (e, t)).2.world = calls.get t.world :=
    Executor.get_finish h.sink _ e t
  have hcur : cur.position = 0 ∧ cur.jumps = 0 := ⟨rfl, rfl⟩
  obtain ⟨mid, t, hpre, hat⟩ := h.passes_pre hcur rfl hopened hproceeds hadmits
  obtain ⟨ts, hts, hsteps, hsignals⟩ := hpre.history_eq
  obtain ⟨ds, hdoes, -⟩ := Executor.execute_naps hx none input s
  have hdelays {k : Nat} (hf : x.followed (x.history mid t) = List.replicate k (.after l d)) :
      (x.napsFrom s ds).map (·.delay) = if d = 0 then [] else List.replicate k d := by
    have := hdoes.delays hx
    rw [show x.trace none input s = _ from hts, Executor.followed_append, hsignals, List.nil_append, hf,
      JumpSignal.delays_replicate] at this
    exact this
  refine ⟨ds, hdoes, fun hn => ?_, fun hn => ?_⟩
  · obtain ⟨hloop, hf, ⟨v, c, hcompleted⟩, hcount⟩ :=
      h.drive_of_le hat (fun u hu => hproceeds u (hpre.mem_history hu)) hn
    refine ⟨?_, ?_, ?_, hdelays hf⟩
    · rw [hrun, hpre.drive_eq, hcompleted, Executor.finish_completed rfl]
      exact ⟨_, rfl⟩
    · rw [hrun, hend, hpre.drive_eq, hcount]
    · rw [hturns, hts, List.map_append, hsteps, hloop]
      simp
  · obtain ⟨hloop, hf, hfailed, hcount⟩ := h.drive_of_lt hat hn
    refine ⟨?_, ?_, ?_, hdelays hf⟩
    · rw [hrun, hpre.drive_eq, hfailed, Executor.finish_failed]
    · rw [hrun, hend, hpre.drive_eq, hcount]
    · rw [hturns, hts, List.map_append, hsteps, hloop]

/-- Waits for something to be done between two plain steps: looks for it again twice, 5 later each time. -/
def awaiting : Interpreter Bench Empty Nat :=
  (Interpreter.new (.ofDefinition ⟨"awaiting", default, none, ⟨[before], [check], [behind]⟩⟩)).withMaxJumps 3
where
  checks : Cell Bench Nat := Bench.callsOf (.named "check")
  before : BoundStep Bench Empty Nat := ⟨.pre, 0, none, "s0", .shared (.map (· + 1)), none⟩
  check : BoundStep Bench Empty Nat :=
    ⟨.main, 0, some "check", "s1", .shared (Testing.jumping "check" 2 5 checks), none⟩
  behind : BoundStep Bench Empty Nat := ⟨.post, 0, none, "s2", .shared (.map (· * 2)), none⟩

theorem awaiting_polls :
    awaiting.Polls [awaiting.before] awaiting.check [] [awaiting.behind] "check" 2 5 awaiting.checks where
  plan := rfl
  steps := rfl
  label := rfl
  action := rfl
  distinct step hstep := by
    rw [List.mem_singleton.1 hstep]
    exact fun h => by cases h
  others step hstep v c s := by
    rcases List.mem_pair.1 (hstep : step ∈ [awaiting.before, awaiting.behind]) with rfl | rfl
    · rfl
    · rfl
  sink _ _ _ := rfl
  newRun _ := rfl
  sleeper _ _ := rfl
  sleeps _ _ := rfl

theorem polling_loop_awaiting :
    let s : Store Bench Empty := .ofWorld (.new 1)
    awaiting.Polls [awaiting.before] awaiting.check [] [awaiting.behind] "check" 2 5 awaiting.checks ∧
      awaiting.checks.get s.world = 0 ∧
      (∃ r, (awaiting.executeFrom none none 0 s).1 = .completed r) ∧
      awaiting.checks.get (awaiting.executeFrom none none 0 s).2.world = 3 ∧
      (awaiting.turns none none 0 s).map (·.step) =
        [awaiting.before, awaiting.check, awaiting.check, awaiting.check, awaiting.behind] ∧
      ∃ ds, (awaiting.executor none).Does none 0 s ds ∧
        ((awaiting.executor none).napsFrom s ds).map (·.delay) = [5, 5] := by
  intro s
  have hproceeds : ∀ t ∈ awaiting.turns none none 0 s, t.cursor.position ≠ 1 → t.Proceeds := by
    refine Executor.forall_trace (fun cur step t hs hne => ?_) none 0 s
    have hmem := awaiting_polls.mem_others hs hne
    rcases List.mem_pair.1 (hmem : step ∈ [awaiting.before, awaiting.behind]) with rfl | rfl
    · exact ⟨⟨_, rfl⟩, rfl⟩
    · exact ⟨⟨_, rfl⟩, rfl⟩
  obtain ⟨ds, hdoes, hwithin, -⟩ := polling_loop awaiting_polls 0 s rfl hproceeds
    fun t _ _ marker hmarker => by cases hmarker
  obtain ⟨hcompleted, hcalls, hsteps, hdelays⟩ := hwithin (by decide)
  exact ⟨awaiting_polls, rfl, hcompleted, hcalls, hsteps, ds, hdoes, hdelays⟩

end Pipeworks
