import Pipeworks.Run.Effects

/-!
# Regions of an addressed run

`interpreter_regions`: whatever labels are asked for, a run of an interpreter never comes back to pre,
never begins a step of main once it is short-circuited, and reaches with a jump the step that carries
the label, or post in place of main. Each is a fact about one turn that all later turns keep, so
`Course.pairwise` makes it one about every two turns of a run.
-/

namespace Pipeworks

theorem Turn.left_of_begun {ω ι C : Type} {t : Turn ω ι C} (h : t.cursor.control.shortCircuited = true) :
    t.left.shortCircuited = true := by
  have hb : t.begun.shortCircuited = true := h
  rw [left, Control.absorb, hb, Bool.true_or]

namespace Executor
variable {ω ι C : Type} {x : Executor ω ι C} {cur next : Cursor C} {t : Turn ω ι C}
  {ts : List (Turn ω ι C)} {m : Nat} {sleeper : Sleeper ω}

theorem Takes.lt_of_pre (hx : x.discipline = .addressed m sleeper) (ht : x.Takes t)
    (hl : t.led = .ok next) (hn : next.position < x.plan.preBoundary) :
    t.cursor.position < next.position := by
  obtain ⟨cur, step, o, mk, led⟩ := t
  have h : x.AddressedLead m sleeper (cur.left step mk) o led := ht.addressedLead hx
  obtain rfl : led = .ok next := hl
  cases h with
  | next v d => exact x.lt_goOn _ _ _
  | passed e d hp => exact x.lt_goOn _ _ _
  | @jumped _ target d hj hl hb hm =>
    have hadv := x.plan.le_advance (cur.left step mk).control.shortCircuited target
    exact absurd (Nat.le_trans hb hadv) (Nat.not_le.2 hn)

theorem Takes.flag_of_ok (hx : x.discipline = .addressed m sleeper) (ht : x.Takes t)
    (hl : t.led = .ok next) :
    next.control.shortCircuited = t.left.shortCircuited ∧
      ∃ n, next.position = x.plan.advance t.left.shortCircuited n := by
  obtain ⟨cur, step, o, mk, led⟩ := t
  have h : x.AddressedLead m sleeper (cur.left step mk) o led := ht.addressedLead hx
  obtain rfl : led = .ok next := hl
  cases h with
  | next v d => exact ⟨rfl, _, rfl⟩
  | passed e d hp => exact ⟨rfl, _, rfl⟩
  | jumped d hj hl hb hm => exact ⟨rfl, _, rfl⟩

theorem Takes.position_of_jump (hx : x.discipline = .addressed m sleeper) (ht : x.Takes t)
    {signal : JumpSignal} (ho : t.outcome = .fault (.jump signal)) (hl : t.led = .ok next) :
    ∃ target, x.plan.indexOf? signal.label = some target ∧
      next.position = x.plan.advance t.left.shortCircuited target := by
  obtain ⟨cur, step, o, mk, led⟩ := t
  have h : x.AddressedLead m sleeper (cur.left step mk) o led := ht.addressedLead hx
  obtain rfl : led = .ok next := hl
  obtain rfl : o = .fault (.jump signal) := ho
  cases h with
  | jumped d hj hl hb hm => exact ⟨_, hl, rfl⟩

/-- A position of pre is only reached from an earlier one. -/
theorem Course.pairwise_pre (hx : x.discipline = .addressed m sleeper) (h : x.Course cur ts) :
    ts.Pairwise (fun t t' =>
      t'.cursor.position < x.plan.preBoundary → t.cursor.position < t'.cursor.position) := by
  refine h.pairwise (K := fun t cur => cur.position < x.plan.preBoundary →
    t.cursor.position < cur.position) (fun t next ht hl => ht.lt_of_pre hx hl) ?_
  intro u t next ht hl hu hn
  have hlt := ht.lt_of_pre hx hl hn
  exact Nat.lt_trans (hu (Nat.lt_trans hlt hn)) hlt

theorem Course.pairwise_main (hx : x.discipline = .addressed m sleeper) (h : x.Course cur ts) :
    ts.Pairwise (fun t t' =>
      t.left.shortCircuited = true → x.plan.phaseAt t'.cursor.position ≠ .main) := by
  have hflag (t : Turn ω ι C) (next : Cursor C) (ht : x.Takes t) (hl : t.led = .ok next)
      (hf : t.left.shortCircuited = true) :
      next.control.shortCircuited = true ∧ x.plan.phaseAt next.position ≠ .main := by
    obtain ⟨hc, n, hn⟩ := ht.flag_of_ok hx hl
    rw [hf] at hc hn
    exact ⟨hc, hn ▸ x.plan.phaseAt_advance_true n⟩
  have hp := h.pairwise (K := fun t cur => t.left.shortCircuited = true →
    cur.control.shortCircuited = true ∧ x.plan.phaseAt cur.position ≠ .main) hflag
    (fun u t next ht hl hu hf => hflag t next ht hl (Turn.left_of_begun (hu hf).1))
  exact hp.imp fun h hf => (h hf).2

end Executor

variable {ω ι C : Type} [Host ω] [LocalAction ω ι C]

/-- What regions mean to an interpreter of a definition. Of any two turns of a run, which are those that
account for it, the later one is not at the same step of pre, nor in pre if the earlier one was behind it,
nor in main if the step of the earlier one left the run short-circuited. A jump leads to the first step that
carries its label, or to post if the run is short-circuited and that step lies in main; the next turn is
where it leads. -/
theorem interpreter_regions (d : Definition ω ι C) (maxJumps : Nat) (sleeper : Sleeper ω)
    (sink : Sink ω) (queued start : Option String) (out : Option (Marker C)) (input : C) (s : Store ω ι) :
    let i : Interpreter ω ι C := ⟨.ofDefinition d, maxJumps, sleeper, sink, queued⟩
    let ts := i.turns start out input s
    (i.executor out).Account start input s ts (i.executeFrom start out input s) ∧
    ts.Pairwise (fun t t' => t.cursor.position < i.plan.preBoundary →
      t'.cursor.position ≠ t.cursor.position) ∧
    ts.Pairwise (fun t t' => i.plan.preBoundary ≤ t.cursor.position →
      i.plan.preBoundary ≤ t'.cursor.position) ∧
    ts.Pairwise (fun t t' => t.left.shortCircuited = true →
      i.plan.phaseAt t'.cursor.position ≠ .main) ∧
    (∀ t ∈ ts, ∀ signal next, t.outcome = .fault (.jump signal) → t.led = .ok next →
      ∃ target, d.steps.flat.findIdx? (·.label == some signal.label) = some target ∧
        next.position =
          if t.left.shortCircuited ∧ i.plan.phaseAt target = .main then i.plan.postBoundary else target) ∧
    ts.IsChain (fun t t' => t.led = .ok t'.cursor) := by
  intro i ts
  refine ⟨(i.executor out).account_trace start input s, ?_⟩
  have hx : (i.executor out).discipline = .addressed (max maxJumps 1) sleeper := rfl
  rcases (i.executor out).startAt_cases start input ((i.executor out).opening start s).1 with
    ⟨n, hn⟩ | ⟨label, hn⟩
  · obtain ⟨hc, -⟩ := Executor.course_trace hn
    have hpre := hc.pairwise_pre hx
    refine ⟨hpre.imp fun h hlt heq => ?_, hpre.imp fun h hle => Nat.le_of_not_lt fun hlt => ?_,
      hc.pairwise_main hx, fun t ht signal next ho hl => ?_, hc.isChain⟩
    · exact absurd heq (Nat.ne_of_gt (h (heq ▸ hlt)))
    · exact Nat.lt_irrefl _ (Nat.lt_of_lt_of_le (Nat.lt_trans (h hlt) hlt) hle)
    · obtain ⟨target, htarget, hpos⟩ := (hc.takes t ht).position_of_jump hx ho hl
      refine ⟨target, (Plan.indexOf?_ofDefinition d _).symm.trans htarget, ?_⟩
      rw [hpos, Plan.advance_eq]
      rfl
  · have hts : ts = [] := (Executor.trace_of_error hn).1
    rw [hts]
    exact ⟨.nil, .nil, .nil, fun t ht => (List.not_mem_nil ht).elim, .nil⟩

end Pipeworks
