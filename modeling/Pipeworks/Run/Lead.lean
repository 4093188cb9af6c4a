import Pipeworks.Run.Executor
/-!
# What turns lead to

`PhasedLead` and `AddressedLead` say, for each outcome of a step, which cursor or which end of the run
it leads to: everything that a turn can do, the guards included. Facts about runs are read off them,
so that nothing else has to look into `settle`.
-/

namespace Pipeworks
namespace Executor
variable {ω ι C : Type}

/-- The context and the control after a failure that took `d`. -/
def noteFailure (cur : Cursor C) (d : Nanos) (e : ActionError) : C × Control C :=
  (cur.control.recordTiming d false).recordError cur.value e

/-- What an outcome leads to in a phased run; `cur` has the control that the step left. -/
inductive PhasedLead (x : Executor ω ι C) (begun : Control C) (cur : Cursor C) :
    Outcome C → Except (Ending ω ι C (C × Control C)) (Cursor C) → Prop
  | next (v : C) (d : Nanos) :
    PhasedLead x begun cur (.answered (.ok v))
      (.ok (x.pass begun cur v (cur.control.recordTiming d true)))
  | failed {f : Fault} {e : ActionError} (d : Nanos) (hf : f.asActionError = .ok e) :
    PhasedLead x begun cur (.answered (.error f))
      (.ok (x.pass begun cur (noteFailure cur d e).1
        (if x.plan.policy.shortCircuitOnException then (noteFailure cur d e).2.shortCircuit
          else (noteFailure cur d e).2)))
  | aborted (e : EngineError) :
    PhasedLead x begun cur (.answered (.error (.abort e))) (.error (.failed e))
  | panicked (t : String) : PhasedLead x begun cur (.panicked t) (.error (.panicked t))
  | blocked (h : Held ω ι C) : PhasedLead x begun cur .blocked (.error (.blocked h))

/-- What an outcome leads to in an addressed run with a budget of `m` jumps; `cur` has the control
that the step left. -/
inductive AddressedLead (x : Executor ω ι C) (m : Nat) (sleeper : Sleeper ω) (cur : Cursor C) :
    Outcome C → Except (Ending ω ι C (C × Control C)) (Cursor C) → Prop
  | next (v : C) (d : Nanos) :
    AddressedLead x m sleeper cur (.answered (.ok v))
      (.ok (x.goOn cur v (cur.control.recordTiming d true)))
  | passed (e : ActionError) (d : Nanos) (hp : x.plan.policy.shortCircuitOnException = false) :
    AddressedLead x m sleeper cur (.answered (.error (.failed e)))
      (.ok (x.goOn cur (noteFailure cur d e).1 (noteFailure cur d e).2))
  | failed (e : ActionError) (hp : x.plan.policy.shortCircuitOnException = true) :
    AddressedLead x m sleeper cur (.answered (.error (.failed e))) (.error (.failed (.action e)))
  | aborted (e : EngineError) :
    AddressedLead x m sleeper cur (.answered (.error (.abort e))) (.error (.failed e))
  | jumped {signal : JumpSignal} {target : Nat} (d : Nanos) (hj : cur.jumps < m)
    (hl : x.plan.indexOf? signal.label = some target) (hb : x.plan.preBoundary ≤ target)
    (hm : ((x.plan.step? target).bind (·.expectedInput)).filter (!·.test cur.value) = none) :
    AddressedLead x m sleeper cur (.answered (.error (.jump signal)))
      (.ok ⟨x.plan.advance cur.control.shortCircuited target, cur.value,
        cur.control.recordTiming d true, cur.jumps + 1⟩)
  | overBudget (signal : JumpSignal) (hj : m ≤ cur.jumps) :
    AddressedLead x m sleeper cur (.answered (.error (.jump signal)))
      (.error (.failed (.jump (.budgetExceeded x.plan.name m))))
  | unknown {signal : JumpSignal} (hj : cur.jumps < m)
    (hl : x.plan.indexOf? signal.label = none) :
    AddressedLead x m sleeper cur (.answered (.error (.jump signal)))
      (.error (.failed (.jump (.unknownLabel x.plan.name signal.label))))
  | intoPre {signal : JumpSignal} {target : Nat} (hj : cur.jumps < m)
    (hl : x.plan.indexOf? signal.label = some target) (hb : target < x.plan.preBoundary) :
    AddressedLead x m sleeper cur (.answered (.error (.jump signal)))
      (.error (.failed (.jump (.intoPreRegion signal.label target x.plan.preBoundary))))
  | sleepless {signal : JumpSignal} {w : ω} {e : EngineError} (hj : cur.jumps < m)
    (hd : signal.delay ≠ 0) (hs : (sleeper signal.delay w).1 = .error e) :
    AddressedLead x m sleeper cur (.answered (.error (.jump signal))) (.error (.failed e))
  | mismatch {signal : JumpSignal} {target : Nat} {marker : Marker C} (hj : cur.jumps < m)
    (hl : x.plan.indexOf? signal.label = some target) (hb : x.plan.preBoundary ≤ target)
    (hm : ((x.plan.step? target).bind (·.expectedInput)).filter (!·.test cur.value) = some marker) :
    AddressedLead x m sleeper cur (.answered (.error (.jump signal)))
      (.error (.failed (.jump (.typeMismatch signal.label marker.typeName))))
  | panicked (t : String) :
    AddressedLead x m sleeper cur (.panicked t) (.error (.panicked t))
  | blocked (h : Held ω ι C) : AddressedLead x m sleeper cur .blocked (.error (.blocked h))

/-- What an outcome leads to under the discipline of the executor. -/
def Leads (x : Executor ω ι C) (begun : Control C) (cur : Cursor C) (o : Outcome C)
    (led : Except (Ending ω ι C (C × Control C)) (Cursor C)) : Prop :=
  match x.discipline with
  | .phased => x.PhasedLead begun cur o led
  | .addressed m sleeper => x.AddressedLead m sleeper cur o led

/-! ### Every run ends

A step moves the cursor on, or uses up one jump of the budget. -/

theorem lt_nextPosition (x : Executor ω ι C) {position : Nat} (begun ended : Control C)
    (h : position < x.plan.size) : position < x.nextPosition position begun ended := by
  refine Nat.lt_of_lt_of_le ?_ (x.plan.le_advance _ _)
  split
  · exact x.plan.lt_phaseEnd h
  · exact Nat.lt_succ_self _

/-- Without aborts of pre and post a step leads to the next position, as in an addressed run. -/
theorem nextPosition_of_not_prePostAbort {x : Executor ω ι C} (n : Nat) (b c : Control C)
    (hp : x.plan.policy.prePostAbort = false) :
    x.nextPosition n b c = x.plan.advance c.shortCircuited (n + 1) := by
  have he : x.endsPhase n b c = false := by simp [endsPhase, hp]
  rw [nextPosition, he, if_neg Bool.false_ne_true]

theorem lt_goOn (x : Executor ω ι C) (cur : Cursor C) (v : C) (c : Control C) :
    cur.position < (x.goOn cur v c).position :=
  Nat.lt_of_lt_of_le (Nat.lt_succ_self _) (x.plan.le_advance _ _)

/-- How a cursor may follow another one. -/
def Follows (x : Executor ω ι C) (cur next : Cursor C) : Prop :=
  (next.jumps = cur.jumps ∧ cur.position < next.position) ∨
    (cur.jumps < x.discipline.budget ∧ next.jumps = cur.jumps + 1)

theorem Leads.follows {x : Executor ω ι C} {begun : Control C} {cur next : Cursor C}
    {o : Outcome C} (hpos : cur.position < x.plan.size) (h : x.Leads begun cur o (.ok next)) :
    x.Follows cur next := by
  unfold Leads at h
  split at h
  · cases h with
    | next v d => exact .inl ⟨rfl, x.lt_nextPosition _ _ hpos⟩
    | failed d hf => exact .inl ⟨rfl, x.lt_nextPosition _ _ hpos⟩
  · rename_i m sleeper hx
    cases h with
    | next v d => exact .inl ⟨rfl, x.lt_goOn _ _ _⟩
    | passed e d hp => exact .inl ⟨rfl, x.lt_goOn _ _ _⟩
    | jumped d hj hl hb hm => exact .inr ⟨by rwa [hx], rfl⟩

/-- What is left of a run at a cursor: jumps of the budget, and positions of the plan. -/
def measure (x : Executor ω ι C) (cur : Cursor C) : Nat × Nat :=
  (x.discipline.budget - cur.jumps, x.plan.size - cur.position)

theorem Follows.decreases {x : Executor ω ι C} {cur next : Cursor C} (h : x.Follows cur next)
    (hpos : cur.position < x.plan.size) :
    Prod.Lex (· < ·) (· < ·) (x.measure next) (x.measure cur) := by
  unfold measure
  rcases h with ⟨hj, hp⟩ | ⟨hj, hp⟩
  · rw [hj]; exact Prod.Lex.right _ (by omega)
  · exact Prod.Lex.left _ _ (by omega)

variable [Host ω]

theorem lead_phased {x : Executor ω ι C} (hx : x.discipline = .phased) (step : BoundStep ω ι C)
    (begun : Control C) (cur : Cursor C) (since : Nanos) (o : Outcome C) (s : Store ω ι) :
    x.PhasedLead begun cur o (x.lead step begun cur since o s).1 := by
  cases o with
  | panicked t => exact .panicked t
  | blocked => exact .blocked _
  | answered a =>
    simp only [lead, settle, hx]
    cases a with
    | ok v => exact .next v _
    | error f =>
      cases f with
      | abort e => exact .aborted e
      | failed e => exact .failed _ rfl
      | jump signal => exact .failed _ rfl

theorem lead_addressed {x : Executor ω ι C} {m : Nat} {sleeper : Sleeper ω}
    (hx : x.discipline = .addressed m sleeper) (step : BoundStep ω ι C) (begun : Control C)
    (cur : Cursor C) (since : Nanos) (o : Outcome C) (s : Store ω ι) :
    x.AddressedLead m sleeper cur o (x.lead step begun cur since o s).1 := by
  cases o with
  | panicked t => exact .panicked t
  | blocked => exact .blocked _
  | answered a =>
    simp only [lead, settle, hx]
    cases a with
    | ok v => exact .next v _
    | error f =>
      cases f with
      | abort e => exact .aborted e
      | failed e =>
        simp only [settleAddressed]
        split
        · exact .failed e ‹_›
        · exact .passed e _ (Bool.eq_false_iff.2 ‹_›)
      | jump signal =>
        simp only [settleAddressed, transfer]
        split
        · exact .overBudget signal ‹_›
        · have hj : cur.jumps < m := Nat.lt_of_not_le ‹_›
          split
          · exact .unknown hj ‹_›
          · rename_i target hl
            split
            · exact .intoPre hj hl ‹_›
            · have hb : x.plan.preBoundary ≤ target := Nat.le_of_not_lt ‹_›
              split
              · rename_i hs
                exact .sleepless hj (Sleeper.pause_eq_error hs).1 (Sleeper.pause_eq_error hs).2
              · split
                · exact .mismatch hj hl hb ‹_›
                · exact .jumped _ hj hl hb ‹_›

theorem leads_lead (x : Executor ω ι C) (step : BoundStep ω ι C) (begun : Control C)
    (cur : Cursor C) (since : Nanos) (o : Outcome C) (s : Store ω ι) :
    x.Leads begun cur o (x.lead step begun cur since o s).1 := by
  unfold Leads
  split
  · exact lead_phased ‹_› step begun cur since o s
  · exact lead_addressed ‹_› step begun cur since o s

end Executor
end Pipeworks
