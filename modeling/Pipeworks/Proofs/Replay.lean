import Pipeworks.Bench
import Pipeworks.Pipeline.Shared
import Pipeworks.Proofs.Agreement
import Pipeworks.Proofs.PhasedRun
import Pipeworks.Proofs.SessionEnd

/-!
# Replays of sessions

`frozen_session_replays`: a session of stateless actions, added phase by phase, is frozen into a pipeline whose
run on the first value of the session comes to the result of the session. The two are kept abreast step by
step: what the session has kept so far takes a run of any plan that begins with it to where the session stands
(`Sitting.Replayed`). A session that has ended keeps no more steps, and the phased run has none left.
-/

namespace Pipeworks

/-- What the action answers and what it does to the control depend on the context and on what the control
shows, the run and times apart. -/
def Action.Stateless {ω C : Type} (a : Action ω C) : Prop :=
  ∀ v c c' w w', c.Alike c' → (a.apply v c w).outcome = (a.apply v c' w').outcome ∧
    (a.apply v c w).marks = (a.apply v c' w').marks

/-- A step of a shared action without a state. -/
structure StatelessStep (ω C : Type) extends SharedStep ω C where
  stateless : toSharedStep.action.Stateless

def StatelessStep.call {ω ι C : Type} (u : Phase × StatelessStep ω C) : Session.Call ω ι C :=
  .add u.1 u.2.spec

namespace Session
variable {ω ι C : Type} {z : Session ω ι C} {a : Applied (Store ω ι) C}

/-- A run stands where the session does, whatever its position is. -/
structure Met (z : Session ω ι C) (cur : Cursor C) : Prop where
  value : cur.value = z.value
  control : cur.control.Alike z.control

theorem heard_of_passes {o : Outcome C} {sc : Bool} (hp : o.passes = true) (hh : o.heard sc = false) :
    sc = false ∧ ∀ v, o ≠ .next v := by
  cases o using Outcome.byFault with
  | next v => cases hh
  | failed e => exact ⟨hh, fun v h => by cases h⟩
  | jump signal => exact ⟨hh, fun v h => by cases h⟩
  | abort e | panicked text | blocked => cases hp

theorem next_of_heard {o : Outcome C} (h : o.heard false = true) : ∃ v, o = .next v := by
  cases o using Outcome.byFault with
  | next v => exact ⟨v, rfl⟩
  | failed e | jump signal | abort e | panicked text | blocked => cases h

theorem flag_behind (hz : z.ended = false) (hf : z.control.shortCircuited = false)
    (hp : a.outcome.passes = true)
    (hm : z.shortCircuitOnException = false → a.marks.shortCircuit = true → ∃ v, a.outcome = .next v)
    (phase : Phase) (spec : StepSpec ω ι C) (d : Nanos) :
    (z.behind phase spec d a).control.shortCircuited = (z.behind phase spec d a).ended := by
  cases ha : a.outcome.heard z.shortCircuitOnException with
  | true => exact (ended_behind_of_heard hz ha phase spec d).symm
  | false =>
    obtain ⟨hended, hflag⟩ := flags_behind_of_not_heard hz ha phase spec d
    obtain ⟨hsc, hnext⟩ := heard_of_passes hp ha
    cases hmark : a.marks.shortCircuit with
    | true =>
      obtain ⟨v, hv⟩ := hm hsc hmark
      exact absurd hv (hnext v)
    | false => rw [hended, hflag, hf, hmark, Bool.or_false]

end Session

namespace Executor
variable {ω ι C : Type} [Host ω] [LocalAction ω ι C] {x : Executor ω ι C} {z : Session ω ι C} {cur : Cursor C}

theorem turn_met (hx : x.discipline = .phased) (hpolicy : x.plan.policy = ⟨z.shortCircuitOnException, false⟩)
    (h : z.Met cur) (st : StatelessStep ω C) (phase : Phase)
    (hstep : x.plan.step? cur.position = some (st.boundAt phase (z.nextIndex.get phase)))
    (s s' : Store ω ι) {a : Applied (Store ω ι) C}
    (ha : (BoundAction.shared st.action).apply z.value (z.begun phase st.label) s' = a)
    (hp : a.outcome.passes = true) (d : Nanos) :
    ∃ next, (x.turn cur (st.boundAt phase (z.nextIndex.get phase)) s).1.led = .ok next ∧
      next.position = x.plan.advance next.control.shortCircuited (cur.position + 1) ∧
      (z.behind phase st.spec d a).Met next := by
  let step : BoundStep ω ι C := st.boundAt phase (z.nextIndex.get phase)
  have hbegun : (cur.begun step).Alike (z.begun phase st.label) := h.control.beginStep _ _ _
  obtain ⟨ho, hm⟩ : (x.turn cur step s).1.outcome = a.outcome ∧ (x.turn cur step s).1.marks = a.marks := by
    rw [← ha, ← h.value]
    exact st.stateless _ _ _ _ _ hbegun
  have hleft : ((cur.left step a.marks).control).Alike (z.keep phase st.spec a.marks).control :=
    hbegun.absorb a.marks
  have hl : x.PhasedLead (cur.begun step) (cur.left step a.marks) a.outcome (x.turn cur step s).1.led := by
    rw [← ho, ← hm]
    exact (takes_turn hstep).phasedLead hx
  have hpos (b c : Control C) : x.nextPosition cur.position b c =
      x.plan.advance c.shortCircuited (cur.position + 1) :=
    nextPosition_of_not_prePostAbort _ _ _ (by rw [hpolicy])
  show ∃ next, (x.turn cur step s).1.led = .ok next ∧ _
  generalize (x.turn cur step s).1.led = led at hl
  cases hout : a.outcome with
  | panicked text => rw [hout] at hp; cases hp
  | blocked => rw [hout] at hp; cases hp
  | answered answer =>
    rw [hout] at hl hp
    simp only [Session.behind, hout]
    cases hl with
    | next v d' => exact ⟨_, rfl, hpos _ _, rfl, hleft.recordTiming d' d true⟩
    | aborted e => cases hp
    | @failed f e d' hf =>
      obtain ⟨hv, hc⟩ := (hleft.recordTiming d' d false).recordError z.value e
      have hnote : noteFailure (cur.left step a.marks) d' e =
          ((cur.left step a.marks).control.recordTiming d' false).recordError z.value e := by
        rw [← h.value]
        rfl
      refine ⟨_, rfl, hpos _ _, ?_⟩
      have hsc : (z.keep phase st.spec a.marks).shortCircuitOnException = z.shortCircuitOnException := rfl
      simp only [Session.settle, hf, hpolicy, hsc, hnote]
      split
      · exact ⟨hv, hc.shortCircuit⟩
      · exact ⟨hv, hc⟩

end Executor

namespace Sitting
open SharedStep
variable {ω ι C : Type} [Host ω] [LocalAction ω ι C] {t₀ t : Sitting ω ι C}
  {kept : ByPhase (List (SharedStep ω C))}

/-- A session that was opened as `t₀` has kept these steps, and a phased run of a plan that begins with them
comes to where the session stands. -/
structure Replayed (t₀ : Sitting ω ι C) (kept : ByPhase (List (SharedStep ω C))) (t : Sitting ω ι C) :
    Prop where
  name : t.session.name = t₀.session.name
  policy : t.session.shortCircuitOnException = t₀.session.shortCircuitOnException
  handler : t.session.handler = t₀.session.handler
  recorded : t.session.recorded = specs kept
  nextIndex : ∀ phase, t.session.nextIndex.get phase = (kept.get phase).length
  flag : t.session.control.shortCircuited = t.session.ended
  reached : ∀ x : Executor ω ι C, x.discipline = .phased →
    x.plan.policy = ⟨t₀.session.shortCircuitOnException, false⟩ →
    placed kept <+: x.plan.definition.steps.flat → ∀ c s, c.Alike t₀.session.control →
    ∃ cur s', x.drive ⟨0, t₀.session.value, c, 0⟩ s = x.drive cur s' ∧
      cur.position = x.plan.advance t.session.control.shortCircuited
        (placed kept : List (BoundStep ω ι C)).length ∧
      t.session.Met cur

theorem replayed_start (name : String) (sc : Bool) (initial : C) (handler : Option (ErrorHandler C))
    (s : Store ω ι) : (start name sc initial handler s).Replayed (.const [])
      (start name sc initial handler s) := by
  refine ⟨rfl, rfl, rfl, rfl, fun phase => ?_, rfl, fun x hx hpolicy hprefix c u hc => ?_⟩
  · cases phase <;> rfl
  · exact ⟨_, u, rfl, (x.plan.advance_false 0).symm, rfl, hc⟩

/-- A step that is added to an open session is kept, and the run takes it as the session does. -/
theorem Replayed.add (h : Replayed t₀ kept t) (st : StatelessStep ω C) {phase : Phase}
    (hlater : ∀ later, ¬later ≤ phase → kept.get later = [])
    (hpass : ∀ a ∈ (t.call (.add phase st.spec)).visits, a.outcome.passes = true)
    (hmarks : t₀.session.shortCircuitOnException = false → ∀ a ∈ (t.call (.add phase st.spec)).visits,
      a.marks.shortCircuit = true → ∃ v, a.outcome = .next v) :
    ∃ kept', Replayed t₀ kept' (t.call (.add phase st.spec)) ∧
      ∀ later, ¬later ≤ phase → kept'.get later = [] := by
  cases hz : t.session.ended with
  | true =>
    -- A session that has ended ignores the step, and does not keep it either.
    rw [call_add_of_ended hz]
    exact ⟨kept, h, hlater⟩
  | false =>
    let a : Applied (Store ω ι) C :=
      (BoundAction.shared st.action).apply t.session.value (t.session.begun phase st.label) t.store
    have happ : t.session.applied? phase st.spec t.store = some a := by
      simp only [Session.applied?, hz, Bool.false_eq_true, if_false]
      rfl
    obtain ⟨d, hcall⟩ := call_add_of_some happ
    have hmem : a ∈ (t.call (.add phase st.spec)).visits := by
      rw [hcall]
      exact List.mem_append_right _ (List.mem_singleton_self a)
    have hpassed := hpass a hmem
    have hf : t.session.control.shortCircuited = false := h.flag.trans hz
    have hflag := Session.flag_behind hz hf hpassed (fun hsc => hmarks (h.policy ▸ hsc) a hmem) phase st.spec d
    rw [hcall]
    refine ⟨kept.push phase st.toSharedStep, ?_, fun later hl => ?_⟩
    · obtain ⟨v, e, c, hbehind⟩ := t.session.behind_eq phase st.spec d a
      refine ⟨?_, ?_, ?_, ?_, fun ph => ?_, hflag, fun x hx hpolicy hprefix c₀ s hc₀ => ?_⟩
      · exact (congrArg (·.name) hbehind).trans h.name
      · exact (congrArg (·.shortCircuitOnException) hbehind).trans h.policy
      · exact (congrArg (·.handler) hbehind).trans h.handler
      · rw [specs_push, ← h.recorded]
        exact congrArg (·.recorded) hbehind
      · have hnext : (t.session.behind phase st.spec d a).nextIndex =
            t.session.nextIndex.modify (· + 1) phase := congrArg (·.nextIndex) hbehind
        show (t.session.behind phase st.spec d a).nextIndex.get ph = _
        rw [hnext, ByPhase.push]
        by_cases hph : ph = phase
        · rw [hph, ByPhase.get_modify, ByPhase.get_modify, h.nextIndex, List.length_append,
            List.length_singleton]
        · rw [ByPhase.get_modify_ne _ _ hph, ByPhase.get_modify_ne _ _ hph, h.nextIndex]
      · rw [placed_push kept st.toSharedStep hlater, ← h.nextIndex phase] at hprefix ⊢
        obtain ⟨cur, s', hdrive, hpos, hmet⟩ := h.reached x hx hpolicy
          ((List.prefix_append _ _).trans hprefix) c₀ s hc₀
        -- The session is open and so the flag is down: no position is passed over, and the run stands at
        -- the step that comes behind those kept so far.
        rw [hf, x.plan.advance_false] at hpos
        have hstep : x.plan.step? cur.position = some (st.boundAt phase (t.session.nextIndex.get phase)) := by
          rw [x.plan.step?_eq, hpos]
          obtain ⟨rest, hrest⟩ := hprefix
          rw [← hrest]
          simp
        obtain ⟨next, hled, hnext, hmet'⟩ := Executor.turn_met hx (by rw [hpolicy, h.policy]) hmet st phase hstep
          s' t.store rfl hpassed d
        refine ⟨next, _, hdrive.trans (Executor.drive_of_ok hstep hled), ?_, hmet'⟩
        rw [hnext, hpos, hmet'.control.shortCircuited, List.length_append, List.length_singleton]
    · rw [ByPhase.push, ByPhase.get_modify_ne _ _ fun heq => hl (by rw [heq]; exact Nat.le_refl _)]
      exact hlater later hl

theorem mem_visits_run {a : Applied (Store ω ι) C} (us : List (Phase × StatelessStep ω C))
    (h : a ∈ t.visits) : a ∈ (t.run (us.map StatelessStep.call)).visits := by
  induction us generalizing t with
  | nil => exact h
  | cons u us ih => exact ih (List.mem_append_left _ h)

theorem Replayed.run (h : Replayed t₀ kept t) {us : List (Phase × StatelessStep ω C)}
    (hsorted : us.Pairwise fun u u' => u.1 ≤ u'.1)
    (hlater : ∀ u ∈ us, ∀ later, ¬later ≤ u.1 → kept.get later = [])
    (hpass : ∀ a ∈ (t.run (us.map StatelessStep.call)).visits, a.outcome.passes = true)
    (hmarks : t₀.session.shortCircuitOnException = false →
      ∀ a ∈ (t.run (us.map StatelessStep.call)).visits, a.marks.shortCircuit = true →
        ∃ v, a.outcome = .next v) :
    ∃ kept', Replayed t₀ kept' (t.run (us.map StatelessStep.call)) := by
  induction us generalizing t kept with
  | nil => exact ⟨kept, h⟩
  | cons u us ih =>
    obtain ⟨hfirst, hrest⟩ := List.pairwise_cons.1 hsorted
    obtain ⟨kept', hcall, hkept⟩ := h.add u.2 (hlater u List.mem_cons_self)
      (fun a ha => hpass a (mem_visits_run us ha)) fun hsc a ha => hmarks hsc a (mem_visits_run us ha)
    refine ih hcall hrest (fun u' hu' later hl => hkept later fun hle => hl ?_) hpass hmarks
    exact Nat.le_trans hle (hfirst u' hu')

omit [LocalAction ω ι C] in
theorem result_alike {cur : Cursor C} (h : t.session.Met cur) (s : Store ω ι) :
    (cur.control.result cur.value s).Alike (t.session.result t.store.world) :=
  ⟨h.value, h.control.shortCircuited, congrArg Trail.toList h.control.errors, h.control.timings⟩

def ofSteps (name : String) (sc : Bool) (initial : C) (handler : Option (ErrorHandler C)) (s : Store ω ι)
    (us : List (Phase × StatelessStep ω C)) : Sitting ω ι C :=
  (start name sc initial handler s).run (us.map StatelessStep.call)

/-- Freezing a session of stateless actions and running what it is frozen into on its first value gives the
result of the session, but for durations. The steps are added phase by phase, none of them aborts or panics,
and if failures do not short-circuit the session, none sets the flag and fails. It does not matter whether
the session has ended, nor in which store the pipeline runs. -/
theorem frozen_session_replays (name : String) (sc : Bool) (initial : C) (handler : Option (ErrorHandler C))
    (s : Store ω ι) (us : List (Phase × StatelessStep ω C)) (hsorted : us.Pairwise fun u u' => u.1 ≤ u'.1)
    (hpass : ∀ a ∈ (ofSteps name sc initial handler s us).visits, a.outcome.passes = true)
    (hmarks : sc = false → ∀ a ∈ (ofSteps name sc initial handler s us).visits,
      a.marks.shortCircuit = true → ∃ v, a.outcome = .next v)
    {p : Pipeline ω ι C} (hp : (ofSteps name sc initial handler s us).session.freeze = .ok p)
    (s' : Store ω ι) :
    ∃ r, (p.execute none initial s').1 = .completed r ∧
      r.Alike ((ofSteps name sc initial handler s us).session.result
        (ofSteps name sc initial handler s us).store.world) := by
  obtain ⟨kept, h⟩ := (replayed_start name sc initial handler s).run hsorted
    (fun u _ later _ => by cases later <;> rfl) hpass hmarks
  obtain ⟨d, hpolicy, hname, hhandler, hflat, hrun⟩ := Session.execute_of_freeze hp h.recorded initial s'
  let x : Executor ω ι C := .phased (.ofDefinition d) .silent
  have hsteps : x.plan.definition.steps.flat = placed kept := hflat
  have hpolicy' : x.plan.policy = ⟨sc, false⟩ := hpolicy.trans (congrArg (ErrorPolicy.mk · false) h.policy)
  have hopening : (x.opening none s').1.Alike (start name sc initial handler s).session.control :=
    ⟨hname.trans h.name, rfl, rfl, rfl, rfl, rfl, rfl, hhandler.trans h.handler⟩
  obtain ⟨cur, u, hdrive, hpos, hmet⟩ := h.reached x rfl hpolicy' (hsteps ▸ List.prefix_rfl) _
    (x.opening none s').2 hopening
  -- All steps that were kept are behind the run, so that there is none at its cursor.
  have hnone : x.plan.step? cur.position = none := by
    rw [x.plan.step?_eq, hpos, hsteps]
    exact List.getElem?_eq_none (x.plan.le_advance _ _)
  have hexecute : x.execute none initial s' = x.finish (x.opening none s').1 (x.drive cur u) :=
    congrArg (x.finish (x.opening none s').1) hdrive
  refine ⟨cur.control.result cur.value u, hrun.trans ?_, result_alike hmet u⟩
  rw [hexecute, Executor.drive_of_none hnone, Executor.finish_completed rfl]

end Sitting

namespace tallySteps

def hop : Action Bench Nat := .pure fun _ => .error (.jump (.now "count"))

/-- Adds the number of errors so far, and short-circuits the run. -/
def tally : Action Bench Nat := .controlled fun n c w => ⟨.next (n + c.errors.size), ⟨[], true⟩, w⟩

theorem tally_stateless : tally.Stateless := by
  intro n c c' w w' h
  refine ⟨?_, rfl⟩
  show Outcome.next (n + c.errors.size) = Outcome.next (n + c'.errors.size)
  rw [h.errors]

end tallySteps

/-- The second step fails, the third asks for a jump, the fourth short-circuits the run, and the last one comes
too late. -/
def tallySteps : List (Phase × StatelessStep Bench Nat) :=
  [(.pre, ⟨⟨haltingPlan.count, some "count", none⟩, fun _ _ _ _ _ _ => ⟨rfl, rfl⟩⟩),
    (.main, ⟨⟨haltingPlan.refuse, none, none⟩, fun _ _ _ _ _ _ => ⟨rfl, rfl⟩⟩),
    (.main, ⟨⟨tallySteps.hop, none, none⟩, fun _ _ _ _ _ _ => ⟨rfl, rfl⟩⟩),
    (.post, ⟨⟨tallySteps.tally, none, none⟩, tallySteps.tally_stateless⟩),
    (.post, ⟨⟨haltingPlan.count, some "late", none⟩, fun _ _ _ _ _ _ => ⟨rfl, rfl⟩⟩)]

theorem frozen_session_replays_tally :
    let s : Store Bench Empty := .ofWorld (.new 1)
    let t := Sitting.ofSteps "tally" false 7 (some fun n _ => n + 10) s tallySteps
    t.session.ended = true ∧ t.session.value = 30 ∧ t.visits.length = 4 ∧
      ∃ p, t.session.freeze = .ok p ∧ ∃ r, (p.execute none 7 s).1 = .completed r ∧
        r.Alike (t.session.result t.store.world) := by
  intro s t
  have hsorted : tallySteps.Pairwise fun u u' => u.1 ≤ u'.1 := by
    simp only [tallySteps, List.pairwise_cons]
    decide
  have hpass : t.visits.all (·.outcome.passes) = true := rfl
  have hheard : t.visits.all (fun a => !a.marks.shortCircuit || a.outcome.heard false) = true := rfl
  have hmarks : false = false → ∀ a ∈ t.visits, a.marks.shortCircuit = true → ∃ v, a.outcome = .next v := by
    intro _ a ha hm
    have h := List.all_eq_true.1 hheard a ha
    rw [hm] at h
    exact Session.next_of_heard h
  obtain ⟨p, hp⟩ : ∃ p, t.session.freeze = .ok p := ⟨_, rfl⟩
  have hreplay := Sitting.frozen_session_replays "tally" false 7 _ s tallySteps hsorted
    (List.all_eq_true.1 hpass) hmarks hp s
  exact ⟨rfl, rfl, rfl, p, hp, hreplay⟩

end Pipeworks
