import Pipeworks.Bench
import Pipeworks.Run.History

/-!
# The jump budget

`interpreter_within_budget`: every run of an interpreter ends, and it begins at most as many steps as the
plan has for every jump of the budget and once more. Between two jumps positions increase, so one
walk through the plan is no longer than the plan; `Course.length_le` adds up the walks that are left.
The request after the last jump of the budget ends the run.
-/

namespace Pipeworks

namespace Outcome
variable {C : Type}

/-- The step asked for a jump. -/
def jumps : Outcome C → Bool
  | .answered (.error (.jump _)) => true
  | _ => false

/-- The call of the step came back. -/
def returns : Outcome C → Bool
  | .answered _ => true
  | _ => false

end Outcome

/-- The run came back, with a result or with an error. -/
def Ending.returns {ω ι C α : Type} : Ending ω ι C α → Bool
  | .completed _ => true
  | .failed _ => true
  | _ => false

namespace Interpreter
variable {ω ι C : Type}

/-- The number of jumps that a run may make, at least one. -/
def budget (i : Interpreter ω ι C) : Nat := max i.maxJumps 1

theorem discipline_executor (i : Interpreter ω ι C) (out : Option (Marker C)) :
    (i.executor out).discipline = .addressed i.budget i.sleeper := rfl

end Interpreter

namespace Turn
variable {ω ι C : Type}

/-- The number of requests to jump. -/
def requests (ts : List (Turn ω ι C)) : Nat := ts.countP (·.outcome.jumps)

@[simp] theorem requests_nil : requests ([] : List (Turn ω ι C)) = 0 := rfl

theorem requests_cons (t : Turn ω ι C) (ts : List (Turn ω ι C)) :
    requests (t :: ts) = requests [t] + requests ts := by
  rw [requests, requests, requests, ← List.countP_append, List.singleton_append]

theorem requests_singleton_le (t : Turn ω ι C) : requests [t] ≤ 1 := List.countP_le_length

theorem requests_singleton_pos {t : Turn ω ι C} : 0 < requests [t] ↔ t.outcome.jumps = true := by
  cases h : t.outcome.jumps <;> simp [requests, h]

/-- The error is not the interpreter's: the step aborted with it, or the sleeper answered it to the delay
of a jump. -/
def Raises (sleeper : Sleeper ω) (t : Turn ω ι C) (e : EngineError) : Prop :=
  t.outcome = .fault (.abort e) ∨
    ∃ signal w, t.outcome = .fault (.jump signal) ∧ signal.delay ≠ 0 ∧
      (sleeper signal.delay w).1 = .error e

end Turn

namespace Executor
variable {ω ι C : Type} {x : Executor ω ι C} {cur next : Cursor C} {t : Turn ω ι C}
  {ts : List (Turn ω ι C)} {m : Nat} {sleeper : Sleeper ω}

/-! ### The number of steps -/

theorem Takes.lt_size (ht : x.Takes t) : t.cursor.position < x.plan.size :=
  x.plan.lt_size_of_step? ht.step

theorem Takes.follows (ht : x.Takes t) (hl : t.led = .ok next) : x.Follows t.cursor next := by
  have h := ht.leads
  rw [hl] at h
  exact (h.follows ht.lt_size : x.Follows (t.cursor.left t.step _) next)

/-- A run begins no more steps than are left of the plan, and those of the whole plan once more for each
jump that is left. -/
theorem Course.length_le (h : x.Course cur ts) :
    ts.length ≤ (x.plan.size - cur.position) + (x.discipline.budget - cur.jumps) * x.plan.size := by
  induction h with
  | done h => exact Nat.zero_le _
  | last ht hl =>
    have := ht.lt_size
    rw [List.length_singleton]
    omega
  | @cons t next ts ht hl hc ih =>
    have hlt := ht.lt_size
    rw [List.length_cons]
    rcases ht.follows hl with ⟨hj, hp⟩ | ⟨hj, hn⟩
    · rw [hj] at ih
      omega
    · -- The jump is paid for with one walk through the plan.
      obtain ⟨k, hk⟩ := Nat.exists_eq_add_of_lt hj
      have hk₀ : x.discipline.budget - t.cursor.jumps = k + 1 := by omega
      have hk₁ : x.discipline.budget - next.jumps = k := by omega
      rw [hk₁] at ih
      rw [hk₀, Nat.succ_mul]
      omega

/-! ### The number of requests -/

theorem Takes.jumps_of_ok (hx : x.discipline = .addressed m sleeper) (ht : x.Takes t)
    (hl : t.led = .ok next) :
    next.jumps = t.cursor.jumps + Turn.requests [t] ∧ (t.cursor.jumps ≤ m → next.jumps ≤ m) ∧
      (t.outcome.jumps = false → t.cursor.position < next.position) := by
  obtain ⟨cur, step, o, mk, led⟩ := t
  have h : x.AddressedLead m sleeper (cur.left step mk) o led := ht.addressedLead hx
  obtain rfl : led = .ok next := hl
  cases h with
  | next v d => exact ⟨rfl, id, fun _ => x.lt_goOn _ _ _⟩
  | passed e d hp => exact ⟨rfl, id, fun _ => x.lt_goOn _ _ _⟩
  | jumped d hlt hl hb hm => exact ⟨rfl, fun _ => hlt, fun ho => by cases ho⟩

theorem Takes.error_of_jumps (hx : x.discipline = .addressed m sleeper) (ht : x.Takes t)
    (ho : t.outcome.jumps = true) (hj : m ≤ t.cursor.jumps) :
    t.led = .error (.failed (.jump (.budgetExceeded x.plan.name m))) := by
  obtain ⟨cur, step, o, mk, led⟩ := t
  have h : x.AddressedLead m sleeper (cur.left step mk) o led := ht.addressedLead hx
  have hj' : ¬(cur.left step mk).jumps < m := Nat.not_lt.2 hj
  cases h with
  | overBudget signal h => rfl
  | next v d | passed e d h | failed e h | aborted e | panicked t | blocked h => cases ho
  | jumped d h hl hb hm | unknown h hl | intoPre h hl hb | sleepless h hd hs | mismatch h hl hb hm =>
    exact absurd h hj'

/-- Where the interpreter does not refuse a request, an error of the budget is not its own. -/
theorem Takes.raises (hx : x.discipline = .addressed m sleeper) (ht : x.Takes t) {p : String} {k : Nat}
    (hl : t.led = .error (.failed (.jump (.budgetExceeded p k))))
    (hj : t.outcome.jumps = true → t.cursor.jumps < m) :
    t.Raises sleeper (.jump (.budgetExceeded p k)) := by
  obtain ⟨cur, step, o, mk, led⟩ := t
  have h : x.AddressedLead m sleeper (cur.left step mk) o led := ht.addressedLead hx
  obtain rfl : led = .error (.failed (.jump (.budgetExceeded p k))) := hl
  cases h with
  | aborted e => exact .inl rfl
  | sleepless h hd hs => exact .inr ⟨_, _, rfl, hd, hs⟩
  | overBudget signal h => exact absurd (hj rfl) (Nat.not_lt.2 h)

theorem Takes.returns (hx : x.discipline = .addressed m sleeper) (ht : x.Takes t)
    {e : Ending ω ι C (C × Control C)} (ho : t.outcome.returns = true) (hl : t.led = .error e) :
    e.returns = true := by
  obtain ⟨cur, step, o, mk, led⟩ := t
  have h : x.AddressedLead m sleeper (cur.left step mk) o led := ht.addressedLead hx
  obtain rfl : led = .error e := hl
  cases h with
  | panicked t | blocked h => cases ho
  | failed | aborted | overBudget | unknown | intoPre | sleepless | mismatch => rfl

theorem Course.requests_le (hx : x.discipline = .addressed m sleeper) (h : x.Course cur ts)
    (hj : cur.jumps ≤ m) : Turn.requests ts + cur.jumps ≤ m + 1 := by
  induction h with
  | done h => rw [Turn.requests_nil]; omega
  | @last t e ht hl =>
    have := Turn.requests_singleton_le t
    omega
  | @cons t next ts ht hl hc ih =>
    obtain ⟨hn, hm, -⟩ := ht.jumps_of_ok hx hl
    have := ih (hm hj)
    rw [Turn.requests_cons]
    omega

theorem Course.over_budget (hx : x.discipline = .addressed m sleeper) (h : x.Course cur ts)
    (hj : cur.jumps ≤ m) (hr : Turn.requests ts + cur.jumps = m + 1) :
    endOf cur ts = .failed (.jump (.budgetExceeded x.plan.name m)) ∧
      ∃ us t, ts = us ++ [t] ∧ t.outcome.jumps = true ∧ Turn.requests us + cur.jumps = m := by
  induction h with
  | done h => rw [Turn.requests_nil] at hr; omega
  | @last t e ht hl =>
    have h₁ := Turn.requests_singleton_le t
    have ho : t.outcome.jumps = true := Turn.requests_singleton_pos.1 (by omega)
    refine ⟨?_, [], t, rfl, ho, by rw [Turn.requests_nil]; omega⟩
    rw [endOf_singleton, Turn.ending, ht.error_of_jumps hx ho (by omega)]
  | @cons t next ts ht hl hc ih =>
    obtain ⟨hn, hm, -⟩ := ht.jumps_of_ok hx hl
    rw [Turn.requests_cons] at hr
    obtain ⟨he, us, u, rfl, hu, hus⟩ := ih (hm hj) (by omega)
    refine ⟨by rw [endOf_cons _ hl, he], t :: us, u, rfl, hu, ?_⟩
    rw [Turn.requests_cons]
    omega

theorem Course.raises (hx : x.discipline = .addressed m sleeper) (h : x.Course cur ts)
    (hj : cur.jumps ≤ m) (hr : Turn.requests ts + cur.jumps ≤ m) {p : String} {k : Nat}
    (he : endOf cur ts = .failed (.jump (.budgetExceeded p k))) :
    ∃ t, ts.getLast? = some t ∧ t.Raises sleeper (.jump (.budgetExceeded p k)) := by
  induction h with
  | done h => cases he
  | @last t e ht hl =>
    rw [endOf_singleton, Turn.ending, hl] at he
    refine ⟨t, rfl, ht.raises hx (by rw [hl]; exact congrArg _ he) fun ho => ?_⟩
    have := Turn.requests_singleton_pos.2 ho
    omega
  | @cons t next ts ht hl hc ih =>
    obtain ⟨hn, hm, -⟩ := ht.jumps_of_ok hx hl
    rw [Turn.requests_cons] at hr
    rw [endOf_cons ts hl] at he
    obtain ⟨u, hu, hraises⟩ := ih (hm hj) (by omega) he
    exact ⟨u, by rw [List.getLast?_cons, hu]; rfl, hraises⟩

theorem Course.returns (hx : x.discipline = .addressed m sleeper) (h : x.Course cur ts)
    (ho : ∀ t ∈ ts, t.outcome.returns = true) : (endOf cur ts).returns = true := by
  induction h with
  | done h => rfl
  | @last t e ht hl =>
    rw [endOf_singleton, Turn.ending, hl]
    exact ht.returns hx (ho t (List.mem_singleton_self t)) hl
  | @cons t next ts ht hl hc ih =>
    rw [endOf_cons ts hl]
    exact ih fun u hu => ho u (List.mem_cons_of_mem t hu)

theorem Course.lt_of_not_jumps (hx : x.discipline = .addressed m sleeper) (h : x.Course cur ts) :
    ts.IsChain (fun t t' => t.outcome.jumps = false → t.cursor.position < t'.cursor.position) :=
  h.isChain.imp_of_mem_imp fun t _ ht _ hl ho => ((h.takes t ht).jumps_of_ok hx hl).2.2 ho

theorem finish_returns [Host ω] (begun : Control C) (e : Ending ω ι C (C × Control C)) (s : Store ω ι) :
    (x.finish begun (e, s)).1.returns = e.returns := by
  cases e with
  | completed a =>
    simp only [finish]
    split <;> rfl
  | failed e | panicked t | blocked h => rfl

end Executor

variable {ω ι C : Type} [Host ω] [LocalAction ω ι C]

/-- Every run of an interpreter ends within its budget of `m` jumps. It begins at most `m + 1` times as
many steps as the plan has, at increasing positions but for jumps, and comes back if its steps do. It makes
at most `m + 1` requests to jump; the last of these ends it with `budgetExceeded`, whatever its label is.
A run of fewer requests ends with such an error only if a step aborts with it, or the sleeper answers it. -/
theorem interpreter_within_budget (i : Interpreter ω ι C) (start : Option String)
    (out : Option (Marker C)) (input : C) (s : Store ω ι) :
    (i.turns start out input s).length ≤ i.plan.size * (i.budget + 1) ∧
    (i.turns start out input s).IsChain
      (fun t t' => t.outcome.jumps = false → t.cursor.position < t'.cursor.position) ∧
    ((∀ t ∈ i.turns start out input s, t.outcome.returns = true) →
      (i.executeFrom start out input s).1.returns = true) ∧
    Turn.requests (i.turns start out input s) ≤ i.budget + 1 ∧
    (Turn.requests (i.turns start out input s) = i.budget + 1 →
      (i.executeFrom start out input s).1 = .failed (.jump (.budgetExceeded i.plan.name i.budget)) ∧
      ∃ us t, i.turns start out input s = us ++ [t] ∧ t.outcome.jumps = true ∧
        Turn.requests us = i.budget) ∧
    (Turn.requests (i.turns start out input s) ≤ i.budget → ∀ p k,
      (i.executeFrom start out input s).1 = .failed (.jump (.budgetExceeded p k)) →
      ∃ t, (i.turns start out input s).getLast? = some t ∧
        t.Raises i.sleeper (.jump (.budgetExceeded p k))) := by
  have hx : (i.executor out).discipline = .addressed i.budget i.sleeper := rfl
  rcases (i.executor out).startAt_cases start input ((i.executor out).opening start s).1 with
    ⟨n, hn⟩ | ⟨label, hn⟩
  · obtain ⟨hc, u, hrun⟩ := Executor.course_trace hn
    change (i.executor out).Course _ (i.turns start out input s) at hc
    change i.executeFrom start out input s = _ at hrun
    refine ⟨?_, hc.lt_of_not_jumps hx, fun ho => ?_, hc.requests_le hx (Nat.zero_le _), fun hr => ?_,
      fun hr p k he => ?_⟩
    · calc (i.turns start out input s).length
          ≤ (i.plan.size - n) + (i.budget - 0) * i.plan.size := hc.length_le
        _ ≤ i.plan.size + i.budget * i.plan.size := Nat.add_le_add_right (Nat.sub_le _ _) _
        _ = i.plan.size * (i.budget + 1) := by rw [Nat.mul_succ, Nat.mul_comm, Nat.add_comm]
    · rw [hrun, Executor.finish_returns]
      exact hc.returns hx ho
    · obtain ⟨he, us, t, hT, ht, hus⟩ := hc.over_budget hx (Nat.zero_le _) hr
      refine ⟨?_, us, t, hT, ht, hus⟩
      rw [hrun]
      exact congrArg (fun e => ((i.executor out).finish _ (e, u)).1) he
    · rw [hrun] at he
      rcases Executor.finish_eq_failed he with he | ⟨q, ty, he⟩
      · exact hc.raises hx (Nat.zero_le _) hr he
      · cases he
  · obtain ⟨hT, he⟩ := Executor.trace_of_error hn
    change i.turns start out input s = [] at hT
    change (i.executeFrom start out input s).1 = _ at he
    rw [hT, he]
    refine ⟨Nat.zero_le _, .nil, fun _ => rfl, Nat.zero_le _, fun hr => ?_, fun _ p k hpk => ?_⟩
    · cases hr
    · cases hpk

/-- An interpreter with a budget of one jump, whose only step aborts with the error of that budget. -/
def forging : Interpreter Bench Empty Nat :=
  (Interpreter.new (.ofDefinition ⟨"forging", default, none, ⟨[], [step], []⟩⟩)).withMaxJumps 1
where
  step : BoundStep Bench Empty Nat :=
    ⟨.main, 0, none, "s0",
      .shared (.pure fun _ => .error (.ofJumpError (.budgetExceeded "forging" 1))), none⟩

/-- A run without a request can end with an error of the budget. -/
theorem budget_error_without_request :
    Turn.requests (forging.turns none none 0 (.ofWorld (.new 1))) = 0 ∧
      (forging.executeFrom none none 0 (.ofWorld (.new 1))).1 =
        .failed (.jump (.budgetExceeded forging.plan.name forging.budget)) := by
  let x := forging.executor none
  let s : Store Bench Empty := .ofWorld (.new 1)
  let cur : Cursor Nat := ⟨0, 0, (x.opening none s).1, 0⟩
  let e : Ending Bench Empty Nat (Nat × Control Nat) := .failed (.jump (.budgetExceeded "forging" 1))
  have hstart : x.startAt none 0 (x.opening none s).1 = .ok cur := rfl
  have hstep : x.plan.step? cur.position = some forging.step := rfl
  have hl : (x.turn cur forging.step (x.opening none s).2).1.led = .error e := rfl
  have hT : x.trace none 0 s = [(x.turn cur forging.step (x.opening none s).2).1] :=
    Executor.history_of_error hstep hl
  have he : Executor.endOf cur (x.trace none 0 s) = e := by
    rw [hT, Executor.endOf_singleton, Turn.ending, hl]
  obtain ⟨-, u, hrun⟩ := Executor.course_trace hstart
  constructor
  · show Turn.requests (x.trace none 0 s) = 0
    rw [hT]
    rfl
  · show (x.execute none 0 s).1 = _
    rw [hrun, he]
    rfl

end Pipeworks
