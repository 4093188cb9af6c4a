import Pipeworks.Bench
import Pipeworks.Pipeline.Career
import Pipeworks.Proofs.Budget
import Pipeworks.Proofs.PhasedRun
import Pipeworks.Run.Onward

/-!
# Failures of pre and post

`failed_phase_goes_on`: what a failed step of pre or post does to the rest of its phase. A phased run ends
the phase if the policy asks for it. An addressed run begins the next step of the phase whatever the
policy says of pre and post, so that a pipeline changes its behaviour with the executor that its runs go
through (`failed_phase_unheeded`).
-/

namespace Pipeworks
namespace Plan
variable {ω ι C : Type} {p : Plan ω ι C} {phase : Phase} {n i : Nat} {step : BoundStep ω ι C}

/-- The first position of a phase. -/
def start (p : Plan ω ι C) : Phase → Nat
  | .pre => 0
  | .main => p.preBoundary
  | .post => p.postBoundary

theorem rest_start (p : Plan ω ι C) (phase : Phase) :
    p.Rest phase (p.start phase) (p.definition.steps.get phase) := by
  cases phase with
  | pre => exact p.rest_pre
  | main => exact p.rest_main
  | post => exact p.rest_post

theorem step?_start (h : (p.definition.steps.get phase)[i]? = some step) :
    p.step? (p.start phase + i) = some step ∧ p.phaseAt (p.start phase + i) = phase := by
  obtain ⟨hi, -⟩ := List.getElem?_eq_some_iff.1 h
  exact ⟨((p.rest_start phase).step i hi).trans h, (p.rest_start phase).phase i hi⟩

theorem exists_start (h : p.step? n = some step) :
    ∃ i, n = p.start (p.phaseAt n) + i ∧ (p.definition.steps.get (p.phaseAt n))[i]? = some step := by
  have hle : p.start (p.phaseAt n) ≤ n := by
    cases hph : p.phaseAt n with
    | pre => exact Nat.zero_le n
    | main => exact (p.phaseAt_eq_main.1 hph).1
    | post => exact p.phaseAt_eq_post.1 hph
  have hlt : n < p.boundary (p.phaseAt n) := by
    rw [← p.phaseEnd_eq]
    exact p.lt_phaseEnd (p.lt_size_of_step? h)
  have hrest := p.rest_start (p.phaseAt n)
  have hstop := hrest.stop
  obtain ⟨i, hi⟩ := Nat.exists_eq_add_of_le hle
  refine ⟨i, hi, ?_⟩
  rw [← hrest.step i (by omega), ← hi]
  exact h

theorem phaseAt_ne_of_phaseEnd_le {m : Nat} (h : p.phaseEnd n ≤ m) (hm : m < p.size) :
    p.phaseAt m ≠ p.phaseAt n := by
  intro heq
  have hlt := p.lt_phaseEnd hm
  rw [p.phaseEnd_eq, heq, ← p.phaseEnd_eq] at hlt
  omega

end Plan

namespace Executor
variable {ω ι C : Type} {x : Executor ω ι C} {cur next : Cursor C} {t : Turn ω ι C}
  {ts : List (Turn ω ι C)} {e : ActionError} {m : Nat} {sleeper : Sleeper ω}

/-! ### Phased runs -/

theorem Takes.lt_of_phased (hx : x.discipline = .phased) (ht : x.Takes t) (hl : t.led = .ok next) :
    t.cursor.position < next.position := by
  rcases ht.follows hl with ⟨-, hlt⟩ | ⟨hj, -⟩
  · exact hlt
  · rw [hx] at hj
    exact absurd hj (Nat.not_lt_zero _)

theorem Takes.position_of_phased (hx : x.discipline = .phased) (ht : x.Takes t) (hl : t.led = .ok next) :
    next.position = x.nextPosition t.cursor.position t.begun t.ended := by
  rw [Turn.ended_of_ok hl]
  obtain ⟨cur, step, o, mk, led⟩ := t
  have h : x.PhasedLead (cur.begun step) (cur.left step mk) o led := ht.phasedLead hx
  obtain rfl : led = .ok next := hl
  cases h with
  | next v d => rfl
  | failed d hf => rfl

theorem Takes.logged_of_failed (hx : x.discipline = .phased) (ht : x.Takes t) (hl : t.led = .ok next)
    (ho : t.outcome.failed? = some e) : t.Logged := by
  rw [Turn.Logged, Turn.ended_of_ok hl]
  obtain ⟨cur, step, o, mk, led⟩ := t
  have h : x.PhasedLead (cur.begun step) (cur.left step mk) o led := ht.phasedLead hx
  obtain rfl : led = .ok next := hl
  show (cur.begun step).errors.toList.length < _
  cases h with
  | next v d => cases ho
  | @failed f e' d hf =>
    have herrors : (noteFailure (cur.left step mk) d e').2.errors.toList.length =
        (cur.begun step).errors.toList.length + (mk.recorded.length + 1) := by
      simp [noteFailure, Control.recordError, Control.recordTiming, Cursor.left, Control.absorb]
    simp only [pass]
    split
    · show _ < (noteFailure (cur.left step mk) d e').2.errors.toList.length
      omega
    · omega

/-- Where the policy asks for it, a failed step of pre or post leads behind its phase. -/
theorem Takes.phaseEnd_le (hx : x.discipline = .phased) (ht : x.Takes t) (hl : t.led = .ok next)
    (hp : x.plan.policy.prePostAbort = true) (hm : x.plan.phaseAt t.cursor.position ≠ .main)
    (ho : t.outcome.failed? = some e) : x.plan.phaseEnd t.cursor.position ≤ next.position := by
  have hlogged := ht.logged_of_failed hx hl ho
  have hstops : t.Stops x.plan.policy (x.plan.phaseAt t.cursor.position) := by
    cases hph : x.plan.phaseAt t.cursor.position with
    | pre => exact ⟨hp, .inl hlogged⟩
    | main => exact absurd hph hm
    | post => exact ⟨hp, .inl hlogged⟩
  rw [ht.position_of_phased hx hl, nextPosition_of_stops hstops, x.plan.phaseEnd_eq]
  exact x.plan.le_advance _ _

theorem Course.pairwise_of_failed (hx : x.discipline = .phased) (h : x.Course cur ts)
    (hp : x.plan.policy.prePostAbort = true) :
    ts.Pairwise (fun t t' => ∀ e, t.outcome.failed? = some e → x.plan.phaseAt t.cursor.position ≠ .main →
      x.plan.phaseAt t'.cursor.position ≠ x.plan.phaseAt t.cursor.position) := by
  have hle := h.pairwise (K := fun t cur => ∀ e, t.outcome.failed? = some e →
    x.plan.phaseAt t.cursor.position ≠ .main → x.plan.phaseEnd t.cursor.position ≤ cur.position)
    (fun t next ht hl e ho hm => ht.phaseEnd_le hx hl hp hm ho)
    (fun u t next ht hl hu e ho hm => Nat.le_trans (hu e ho hm) (Nat.le_of_lt (ht.lt_of_phased hx hl)))
  refine hle.imp_of_mem fun ht ht' hle e ho hm => ?_
  exact Plan.phaseAt_ne_of_phaseEnd_le (hle e ho hm) (h.takes _ ht').lt_size

/-! ### Addressed runs -/

/-- A failed step of pre or post leads to the next position, whatever the policy says of pre and post. -/
theorem Takes.next_of_failed (hx : x.discipline = .addressed m sleeper) (ht : x.Takes t)
    (hp : x.plan.policy.shortCircuitOnException = false) (ho : t.outcome.failed? = some e) :
    ∃ next, t.led = .ok next ∧
      next.position = x.plan.advance t.left.shortCircuited (t.cursor.position + 1) := by
  obtain ⟨cur, step, o, mk, led⟩ := t
  have h : x.AddressedLead m sleeper (cur.left step mk) o led := ht.addressedLead hx
  cases h with
  | passed e d hp => exact ⟨_, rfl, rfl⟩
  | failed e hp' =>
    rw [hp] at hp'
    cases hp'
  | _ => cases ho

theorem Course.follower (h : x.Course cur ts) (ht : t ∈ ts) (hl : t.led = .ok next) {step : BoundStep ω ι C}
    (hs : x.plan.step? next.position = some step) : ∃ t', [t, t'] <:+: ts ∧ t'.step = step := by
  induction h with
  | done h => cases ht
  | last hu hl' =>
    obtain rfl := List.mem_singleton.1 ht
    cases hl.symm.trans hl'
  | @cons u next' us hu hl' hc ih =>
    rcases List.mem_cons.1 ht with rfl | ht
    · obtain rfl : next = next' := Except.ok.inj (hl.symm.trans hl')
      cases hc with
      | done hnone => cases hs.symm.trans hnone
      | @last t' e ht' hl'' =>
        exact ⟨t', ⟨[], [], rfl⟩, Option.some.inj (ht'.step.symm.trans hs)⟩
      | @cons t' next'' us ht' hl'' hc =>
        exact ⟨t', ⟨[], us, rfl⟩, Option.some.inj (ht'.step.symm.trans hs)⟩
    · obtain ⟨t', hinfix, hstep⟩ := ih ht
      exact ⟨t', hinfix.trans (List.suffix_cons u us).isInfix, hstep⟩

end Executor

/-! ### Runs of pipelines -/

namespace Pipeline
variable {ω ι C : Type} [Host ω] [LocalAction ω ι C] {p : Pipeline ω ι C} {d : Definition ω ι C}

theorem Defines.position (hd : p.Defines d) {n : Nat} {step : BoundStep ω ι C}
    (hs : (Plan.ofDefinition d).step? n = some step) :
    step.phase = (Plan.ofDefinition d).phaseAt n ∧
      n = (Plan.ofDefinition d).start step.phase + step.index := by
  obtain ⟨i, hn, hstep⟩ := Plan.exists_start hs
  obtain ⟨spec, -, hat⟩ := (hd.steps _).of_getElem? hstep
  rw [Nat.zero_add] at hat
  exact ⟨hat.at_phase, by rw [hat.at_phase, hat.index]; exact hn⟩

variable {x : Executor ω ι C} {cur : Cursor C} {ts : List (Turn ω ι C)}

theorem Defines.pairwise_of_failed (hd : p.Defines d) (hplan : x.plan = .ofDefinition d)
    (hx : x.discipline = .phased) (hp : p.policy.prePostAbort = true) (h : x.Course cur ts) :
    ts.Pairwise (fun t t' => ∀ e, t.outcome.failed? = some e → t.step.phase ≠ .main →
      t'.step.phase ≠ t.step.phase) := by
  have hpolicy : x.plan.policy.prePostAbort = true := by
    rw [hplan, ← hp, ← hd.policy]
    rfl
  have hphase : ∀ t ∈ ts, t.step.phase = x.plan.phaseAt t.cursor.position := by
    intro t ht
    have hstep := (h.takes t ht).step
    rw [hplan] at hstep ⊢
    exact (hd.position hstep).1
  refine (h.pairwise_of_failed hx hpolicy).imp_of_mem fun ht ht' hne e ho hm => ?_
  rw [hphase _ ht] at hm ⊢
  rw [hphase _ ht']
  exact hne e ho hm

theorem Defines.next_of_failed (hd : p.Defines d) (hplan : x.plan = .ofDefinition d) {m : Nat}
    {sleeper : Sleeper ω} (hx : x.discipline = .addressed m sleeper)
    (hp : p.policy.shortCircuitOnException = false) (h : x.Course cur ts) {t : Turn ω ι C} (ht : t ∈ ts)
    {e : ActionError} (ho : t.outcome.failed? = some e) (hm : t.step.phase ≠ .main) {spec : StepSpec ω ι C}
    (hspec : (p.specs.get t.step.phase)[t.step.index + 1]? = some spec) :
    ∃ t', [t, t'] <:+: ts ∧ spec.BindsAt p.site t.step.phase (t.step.index + 1) t'.step := by
  have hpolicy : x.plan.policy.shortCircuitOnException = false := by
    rw [hplan, ← hp, ← hd.policy]
    rfl
  have hstep := (h.takes t ht).step
  rw [hplan] at hstep
  obtain ⟨-, hn⟩ := hd.position hstep
  -- The next position is that of the next step of the phase, which is never passed over.
  obtain ⟨step, hget, hat⟩ := (hd.steps t.step.phase).getElem? hspec
  rw [Nat.zero_add] at hat
  obtain ⟨hstep', hphase⟩ := Plan.step?_start (p := .ofDefinition d) hget
  rw [← Nat.add_assoc, ← hn, ← hplan] at hstep' hphase
  obtain ⟨next, hl, hpos⟩ := (h.takes t ht).next_of_failed hx hpolicy ho
  rw [x.plan.advance_eq, hphase, if_neg fun hskip => hm hskip.2] at hpos
  rw [← hpos] at hstep'
  obtain ⟨t', hinfix, rfl⟩ := h.follower ht hl hstep'
  exact ⟨t', hinfix, hat⟩

end Pipeline

variable {ω ι C : Type} [Host ω] [LocalAction ω ι C]

/-- What a failed step of pre or post does to the rest of its phase. A run through the phased executor
begins no later step of the phase, if the policy asks for it. A run through the addressed one, that does
not end with the first failure, begins the next step of the phase: it does not heed what the policy says
of pre and post. -/
theorem failed_phase_goes_on (name : String) (config : Option EngineConfig)
    (calls : List (Pipeline.Call ω ι C)) (out : Option (Marker C)) (input : C) (s : Store ω ι) :
    let p := ((Career.start name config).run calls).pipeline
    let ts := p.turns out input s
    if p.jumpsEnabled || p.startLabel.isSome || out.isSome then
      p.policy.shortCircuitOnException = false → ∀ t ∈ ts, ∀ e, t.outcome.failed? = some e →
        t.step.phase ≠ .main → ∀ spec, (p.specs.get t.step.phase)[t.step.index + 1]? = some spec →
        ∃ t', [t, t'] <:+: ts ∧ spec.BindsAt p.site t.step.phase (t.step.index + 1) t'.step
    else
      p.policy.prePostAbort = true → ts.Pairwise (fun t t' => ∀ e, t.outcome.failed? = some e →
        t.step.phase ≠ .main → t'.step.phase ≠ t.step.phase) := by
  intro p ts
  have hkept := Career.kept_run (ω := ω) (ι := ι) (C := C) name config calls
  rcases hkept.coherent.course_turns out input s with hts | ⟨d, cur, hd, hc⟩
  · change ts = [] at hts
    rw [hts]
    split
    · exact fun _ t ht => (List.not_mem_nil ht).elim
    · exact fun _ => .nil
  · change (p.executor (.ofDefinition d) out).Course cur ts at hc
    split
    · rename_i hcond
      rw [Pipeline.executor, if_pos hcond] at hc
      exact fun hp t ht e ho hm spec hspec => hd.next_of_failed rfl rfl hp hc ht ho hm hspec
    · rename_i hcond
      rw [Pipeline.executor, if_neg hcond] at hc
      exact fun hp => hd.pairwise_of_failed rfl rfl hp hc

/-- A pipeline that asks for an end of pre behind a failure. The first of its two steps fails. -/
def aborting (jumps : Bool) : Pipeline Bench Empty Nat :=
  { Pipeline.new "aborting" with
    policy := ⟨false, true⟩, jumpsEnabled := jumps, specs := ⟨[.shared refuse, .shared count], [], []⟩ }
where
  refuse : Action Bench Nat := .pure fun _ => .error (.failed (.new "refused"))
  count : Action Bench Nat := .map (· + 1)

namespace aborting

def step (i : Nat) (a : Action Bench Nat) : BoundStep Bench Empty Nat :=
  ⟨.pre, i, none, Phase.pre.stepName i none, .shared a, none⟩

def plan : Plan Bench Empty Nat :=
  .ofDefinition ⟨"aborting", ⟨false, true⟩, none, ⟨[step 0 refuse, step 1 count], [], []⟩⟩

end aborting

open aborting in
/-- The policy is heeded by the phased executor, and not by the other one. -/
theorem failed_phase_unheeded :
    (∀ jumps, (aborting jumps).policy = ⟨false, true⟩) ∧
    (∃ t, (aborting false).turns none 0 (.ofWorld (.new 1)) = [t] ∧
      t.outcome.failed? = some (.new "refused")) ∧
    ∃ t t', (aborting true).turns none 0 (.ofWorld (.new 1)) = [t, t'] ∧
      t.outcome.failed? = some (.new "refused") ∧ t.step.phase = .pre ∧ t'.step.phase = .pre := by
  let s : Store Bench Empty := .ofWorld (.new 1)
  refine ⟨fun _ => rfl, ?_, ?_⟩
  · let x : Executor Bench Empty Nat := .phased plan .silent
    let cur : Cursor Nat := ⟨0, 0, (x.opening none s).1, 0⟩
    let r := x.turn cur (step 0 refuse) (x.opening none s).2
    have hl : ∃ next, r.1.led = .ok next ∧ x.plan.step? next.position = none := ⟨_, rfl, rfl⟩
    obtain ⟨next, hl, hnone⟩ := hl
    refine ⟨r.1, ?_, rfl⟩
    calc (aborting false).turns none 0 s = x.history cur (x.opening none s).2 := rfl
      _ = r.1 :: x.history next r.2 := Executor.history_of_ok rfl hl
      _ = [r.1] := by rw [Executor.history_of_none hnone]
  · let x : Executor Bench Empty Nat := .addressed plan .silent defaultMaxJumps .host
    let cur : Cursor Nat := ⟨0, 0, (x.opening none s).1, 0⟩
    let r := x.turn cur (step 0 refuse) (x.opening none s).2
    let next : Cursor Nat := ⟨1, 0, r.1.ended, 0⟩
    have hl : r.1.led = .ok next := rfl
    let r' := x.turn next (step 1 count) r.2
    have hl' : ∃ last, r'.1.led = .ok last ∧ x.plan.step? last.position = none := ⟨_, rfl, rfl⟩
    obtain ⟨last, hl', hnone⟩ := hl'
    refine ⟨r.1, r'.1, ?_, rfl, rfl, rfl⟩
    calc (aborting true).turns none 0 s = x.history cur (x.opening none s).2 := rfl
      _ = r.1 :: x.history next r.2 := Executor.history_of_ok rfl hl
      _ = r.1 :: r'.1 :: x.history last r'.2 := congrArg _ (Executor.history_of_ok rfl hl')
      _ = [r.1, r'.1] := by rw [Executor.history_of_none hnone]

end Pipeworks
