import Pipeworks.Bench
import Pipeworks.Run.History

/-!
# Transfers to labels

`label_transfers_checked_at_label`: a jump checks the value against the marker of the step that carries
its label, and leads there with the value unchanged. That step is not always the next one: a run that is
short-circuited passes over main, so that a jump to a label of main leads to post, whose first step is not
looked at, and can be refused because of a step that would not have been begun. A start label is not
checked at all. `label_transfers_unchecked` shows all three.
-/

namespace Pipeworks

/-- The value satisfies the marker of the step, if it has one. -/
def BoundStep.Admits {ω ι C : Type} (step : BoundStep ω ι C) (v : C) : Prop :=
  ∀ m, step.expectedInput = some m → m.test v = true

/-- The step has this marker, which the value does not satisfy. -/
def BoundStep.Refuses {ω ι C : Type} (step : BoundStep ω ι C) (m : Marker C) (v : C) : Prop :=
  step.expectedInput = some m ∧ m.test v = false

namespace Plan
variable {ω ι C : Type} {p : Plan ω ι C} {n : Nat} {v : C} {step : BoundStep ω ι C} {m : Marker C}

theorem admits_of_filter
    (h : ((p.step? n).bind (·.expectedInput)).filter (!·.test v) = none) (hs : p.step? n = some step) :
    step.Admits v := by
  intro m hm
  rw [hs, Option.bind_some, hm] at h
  simpa using h

theorem refuses_of_filter
    (h : ((p.step? n).bind (·.expectedInput)).filter (!·.test v) = some m) :
    ∃ step, p.step? n = some step ∧ step.Refuses m v := by
  obtain ⟨hm, ht⟩ := Option.filter_eq_some_iff.1 h
  obtain ⟨step, hs, he⟩ := Option.bind_eq_some_iff.1 hm
  exact ⟨step, hs, he, by simpa using ht⟩

theorem not_filter_of_refuses (hs : p.step? n = some step) (h : step.Refuses m v) :
    ((p.step? n).bind (·.expectedInput)).filter (!·.test v) = some m := by
  rw [hs, Option.bind_some, h.1]
  simp [h.2]

/-- The step at a position is passed over once the run is short-circuited. -/
def Skips (p : Plan ω ι C) (shortCircuited : Bool) (n : Nat) : Prop :=
  shortCircuited = true ∧ p.phaseAt n = .main

theorem advance_of_not_skips {b : Bool} (h : ¬p.Skips b n) : p.advance b n = n := by
  rw [advance_eq]
  exact if_neg h

theorem advance_of_skips {b : Bool} (h : p.Skips b n) : p.advance b n = p.postBoundary := by
  rw [advance_eq]
  exact if_pos h

end Plan

namespace Executor
variable {ω ι C : Type} {x : Executor ω ι C} {t : Turn ω ι C} {next : Cursor C} {m : Nat}
  {sleeper : Sleeper ω} {signal : JumpSignal}

theorem Takes.admits_of_jump (hx : x.discipline = .addressed m sleeper) (ht : x.Takes t)
    (ho : t.outcome = .fault (.jump signal)) (hl : t.led = .ok next) :
    ∃ target, x.plan.indexOf? signal.label = some target ∧
      (∀ step, x.plan.step? target = some step → step.Admits t.cursor.value) ∧
      next.position = x.plan.advance t.left.shortCircuited target ∧ next.value = t.cursor.value := by
  obtain ⟨cur, step, o, mk, led⟩ := t
  have h : x.AddressedLead m sleeper (cur.left step mk) o led := ht.addressedLead hx
  obtain rfl : led = .ok next := hl
  obtain rfl : o = .fault (.jump signal) := ho
  cases h with
  | jumped d hj hl hb hm => exact ⟨_, hl, fun _ hs => Plan.admits_of_filter hm hs, rfl, rfl⟩

/-- A jump to a step that refuses the value is refused, if the checks before let it through. -/
theorem Takes.mismatch_of_refuses (hx : x.discipline = .addressed m sleeper) (ht : x.Takes t)
    (ho : t.outcome = .fault (.jump signal)) {target : Nat} {step : BoundStep ω ι C} {marker : Marker C}
    (hj : t.cursor.jumps < m) (hl : x.plan.indexOf? signal.label = some target)
    (hb : x.plan.preBoundary ≤ target) (hd : signal.delay ≠ 0 → ∀ w, (sleeper signal.delay w).1 = .ok ())
    (hs : x.plan.step? target = some step) (hr : step.Refuses marker t.cursor.value) :
    t.led = .error (.failed (.jump (.typeMismatch signal.label marker.typeName))) := by
  obtain ⟨cur, st, o, mk, led⟩ := t
  have h : x.AddressedLead m sleeper (cur.left st mk) o led := ht.addressedLead hx
  have hf := Plan.not_filter_of_refuses hs hr
  obtain rfl : o = .fault (.jump signal) := ho
  -- Each of the hypotheses rules out one other way in which a jump is settled.
  cases h with
  | jumped d hj' hl' hb' hm =>
    obtain rfl := Option.some.inj (hl.symm.trans hl')
    have := hf.symm.trans hm
    cases this
  | overBudget signal hj' => exact absurd hj (Nat.not_lt.2 hj')
  | unknown hj' hl' =>
    have := hl.symm.trans hl'
    cases this
  | intoPre hj' hl' hb' =>
    obtain rfl := Option.some.inj (hl.symm.trans hl')
    exact absurd hb (Nat.not_le.2 hb')
  | @sleepless signal w e hj' hd' hs' =>
    have := (hd hd' w).symm.trans hs'
    cases this
  | mismatch hj' hl' hb' hm =>
    obtain rfl := Option.some.inj (hl.symm.trans hl')
    obtain rfl := Option.some.inj (hf.symm.trans hm)
    rfl

theorem Takes.refuses_of_mismatch (hx : x.discipline = .addressed m sleeper) (ht : x.Takes t)
    (ho : t.outcome = .fault (.jump signal)) {label expected : String}
    (hl : t.led = .error (.failed (.jump (.typeMismatch label expected)))) :
    (∃ target step marker, x.plan.indexOf? signal.label = some target ∧ x.plan.step? target = some step ∧
      step.Refuses marker t.cursor.value ∧ label = signal.label ∧ expected = marker.typeName) ∨
    ∃ w, (sleeper signal.delay w).1 = .error (.jump (.typeMismatch label expected)) := by
  obtain ⟨cur, st, o, mk, led⟩ := t
  have h : x.AddressedLead m sleeper (cur.left st mk) o led := ht.addressedLead hx
  obtain rfl : led = .error (.failed (.jump (.typeMismatch label expected))) := hl
  obtain rfl : o = .fault (.jump signal) := ho
  cases h with
  | sleepless hj hd hs => exact .inr ⟨_, hs⟩
  | mismatch hj hl hb hm =>
    obtain ⟨step, hs, hr⟩ := Plan.refuses_of_filter hm
    exact .inl ⟨_, step, _, hl, hs, hr, rfl, rfl⟩

theorem Course.ends_of_error {cur : Cursor C} {ts : List (Turn ω ι C)} {e : Ending ω ι C (C × Control C)}
    (h : x.Course cur ts) (ht : t ∈ ts) (hl : t.led = .error e) :
    ts.getLast? = some t ∧ endOf cur ts = e := by
  induction h with
  | done h => cases ht
  | @last u e' hu hl' =>
    obtain rfl := List.mem_singleton.1 ht
    refine ⟨rfl, ?_⟩
    rw [endOf_singleton, Turn.ending, hl]
  | @cons u next us hu hl' hc ih =>
    rcases List.mem_cons.1 ht with rfl | ht
    · cases hl.symm.trans hl'
    · obtain ⟨hlast, hend⟩ := ih ht
      refine ⟨?_, by rw [endOf_cons us hl', hend]⟩
      rw [List.getLast?_cons, hlast]
      rfl

end Executor

variable {ω ι C : Type} [Host ω] [LocalAction ω ι C]

/-- What an interpreter checks of a transfer to a label. A jump leads to the step that carries its label,
or to post where that step is passed over, with the value as it was; the value satisfies the marker of
the step that carries the label, which is the step begun next unless it is passed over. A value that does
not satisfy it ends the run, and nothing else but the sleeper ends it with that error. A start label is
followed unchecked: its step is begun with the input, whatever its marker says. -/
theorem label_transfers_checked_at_label (i : Interpreter ω ι C) (start : Option String)
    (out : Option (Marker C)) (input : C) (s : Store ω ι) :
    let ts := i.turns start out input s
    ts.IsChain (fun t t' => ∀ signal, t.outcome = .fault (.jump signal) →
      ∃ target, i.plan.indexOf? signal.label = some target ∧ t'.cursor.value = t.cursor.value ∧
        (∀ step, i.plan.step? target = some step → step.Admits t'.cursor.value) ∧
        (i.plan.Skips t.left.shortCircuited target → t'.cursor.position = i.plan.postBoundary) ∧
        (¬i.plan.Skips t.left.shortCircuited target →
          t'.cursor.position = target ∧ t'.step.Admits t'.cursor.value)) ∧
    (∀ t ∈ ts, ∀ signal target step marker, t.outcome = .fault (.jump signal) →
      t.cursor.jumps < max i.maxJumps 1 → i.plan.indexOf? signal.label = some target →
      i.plan.preBoundary ≤ target →
      (signal.delay ≠ 0 → ∀ w, (i.sleeper signal.delay w).1 = .ok ()) →
      i.plan.step? target = some step → step.Refuses marker t.cursor.value →
      ts.getLast? = some t ∧ (i.executeFrom start out input s).1 =
        .failed (.jump (.typeMismatch signal.label marker.typeName))) ∧
    (∀ t ∈ ts, ∀ signal label expected, t.outcome = .fault (.jump signal) →
      t.led = .error (.failed (.jump (.typeMismatch label expected))) →
      (∃ target step marker, i.plan.indexOf? signal.label = some target ∧
        i.plan.step? target = some step ∧ step.Refuses marker t.cursor.value ∧ label = signal.label ∧
        expected = marker.typeName ∧
        (¬i.plan.Skips t.left.shortCircuited target →
          i.plan.step? (i.plan.advance t.left.shortCircuited target) = some step)) ∨
      ∃ w, (i.sleeper signal.delay w).1 = .error (.jump (.typeMismatch label expected))) ∧
    (∀ label n step, start = some label → i.plan.indexOf? label = some n → i.plan.step? n = some step →
      ∃ t, ts.head? = some t ∧ t.step = step ∧ t.cursor.value = input) := by
  intro ts
  have hx : (i.executor out).discipline = .addressed (max i.maxJumps 1) i.sleeper := rfl
  have hstart : ∀ label n step, start = some label → i.plan.indexOf? label = some n →
      i.plan.step? n = some step → ∃ t, ts.head? = some t ∧ t.step = step ∧ t.cursor.value = input := by
    rintro label n step rfl hl hs
    exact Executor.head?_trace hl hs
  rcases (i.executor out).startAt_cases start input ((i.executor out).opening start s).1 with
    ⟨n, hn⟩ | ⟨label, hn⟩
  · obtain ⟨hc, u, hrun⟩ := Executor.course_trace hn
    refine ⟨?_, fun t ht signal target step marker ho hj hl hb hd hs hr => ?_,
      fun t ht signal label expected ho hl => ?_, hstart⟩
    · refine hc.isChain.imp_of_mem_imp fun t t' ht ht' hl signal ho => ?_
      obtain ⟨target, htarget, hadm, hpos, hval⟩ := (hc.takes t ht).admits_of_jump hx ho hl
      have hadm' : ∀ step, i.plan.step? target = some step → step.Admits t'.cursor.value :=
        fun step hs => hval ▸ hadm step hs
      refine ⟨target, htarget, hval, hadm', fun hskip => ?_, fun hskip => ?_⟩
      · exact hpos.trans (Plan.advance_of_skips hskip)
      · have hat : t'.cursor.position = target := hpos.trans (Plan.advance_of_not_skips hskip)
        exact ⟨hat, hadm' _ (hat ▸ (hc.takes t' ht').step)⟩
    · have hled := (hc.takes t ht).mismatch_of_refuses hx ho hj hl hb hd hs hr
      obtain ⟨hlast, hend⟩ := hc.ends_of_error ht hled
      refine ⟨hlast, ?_⟩
      show ((i.executor out).execute start input s).1 = _
      rw [hrun, hend]
      rfl
    · rcases (hc.takes t ht).refuses_of_mismatch hx ho hl with
        ⟨target, step, marker, htarget, hs, hr, rfl, rfl⟩ | hw
      · refine .inl ⟨target, step, marker, htarget, hs, hr, rfl, rfl, fun hskip => ?_⟩
        rw [Plan.advance_of_not_skips hskip]
        exact hs
      · exact .inr hw
  · have hts : ts = [] := (Executor.trace_of_error hn).1
    refine ⟨?_, fun t ht => ?_, fun t ht => ?_, hstart⟩
    · rw [hts]; exact .nil
    · rw [hts] at ht; cases ht
    · rw [hts] at ht; cases ht

/-- An interpreter of a step of main that short-circuits the run and asks for the label of the next one,
that one, and a step of post. -/
def leaping (atLabel behind : Option (Marker Nat)) : Interpreter Bench Empty Nat :=
  .new (.ofDefinition ⟨"leaping", default, none, ⟨[], [leap, labelled], [post]⟩⟩)
where
  leap : BoundStep Bench Empty Nat :=
    ⟨.main, 0, none, "s0",
      .shared (.controlled fun _ _ w => ⟨.fault (.jump (.now "m")), ⟨[], true⟩, w⟩), none⟩
  labelled : BoundStep Bench Empty Nat := ⟨.main, 1, some "m", "s1:m", .shared (.map id), atLabel⟩
  post : BoundStep Bench Empty Nat := ⟨.post, 0, none, "post0", .shared (.map id), behind⟩

/-- The marker of even numbers. -/
def even : Marker Nat := ⟨"even", (· % 2 == 0)⟩

/-- A step can be begun with a value that it refuses, as the first one of a run from its label, or of post
by a jump to a label of main. A jump to a label of main can be refused though the step of post that it
would have led to takes every value. -/
theorem label_transfers_unchecked :
    (∃ t, ((leaping (some even) none).turns (some "m") none 1 (.ofWorld (.new 1))).head? = some t ∧
      t.step.Refuses even t.cursor.value) ∧
    (∃ t t', (leaping none (some even)).turns none none 1 (.ofWorld (.new 1)) = [t, t'] ∧
      t.outcome = .fault (.jump (.now "m")) ∧ t'.step.Refuses even t'.cursor.value) ∧
    (∃ t next, (leaping (some even) none).turns none none 1 (.ofWorld (.new 1)) = [t] ∧
      t.outcome = .fault (.jump (.now "m")) ∧
      t.led = .error (.failed (.jump (.typeMismatch "m" "even"))) ∧
      (leaping (some even) none).plan.indexOf? "m" = some 1 ∧
      (leaping (some even) none).plan.step?
        ((leaping (some even) none).plan.advance t.left.shortCircuited 1) = some next ∧
      next.expectedInput = none) := by
  refine ⟨?_, ?_, ?_⟩
  · let x := (leaping (some even) none).executor none
    have hl : x.plan.indexOf? "m" = some 1 := rfl
    have hs : x.plan.step? 1 = some (leaping.labelled (some even)) := rfl
    obtain ⟨t, ht, hs, hv⟩ : ∃ t, (x.trace (some "m") 1 (.ofWorld (.new 1))).head? = some t ∧
      t.step = leaping.labelled (some even) ∧ t.cursor.value = 1 := Executor.head?_trace hl hs
    refine ⟨t, ht, ?_⟩
    rw [hs, hv]
    exact ⟨rfl, rfl⟩
  · let x := (leaping none (some even)).executor none
    let s : Store Bench Empty := .ofWorld (.new 1)
    let cur : Cursor Nat := ⟨0, 1, (x.opening none s).1, 0⟩
    let r := x.turn cur leaping.leap (x.opening none s).2
    let next : Cursor Nat := ⟨2, 1, (cur.left leaping.leap ⟨[], true⟩).control.recordTiming 0 true, 1⟩
    have hl : r.1.led = .ok next := rfl
    let r' := x.turn next (leaping.post (some even)) r.2
    refine ⟨r.1, r'.1, ?_, rfl, rfl, rfl⟩
    calc x.trace none 1 s = r.1 :: x.history next r.2 := Executor.history_of_ok rfl hl
      _ = r.1 :: r'.1 :: x.history _ r'.2 := congrArg _ (Executor.history_of_ok rfl rfl)
      _ = [r.1, r'.1] := by rw [Executor.history_of_none]; rfl
  · let x := (leaping (some even) none).executor none
    let s : Store Bench Empty := .ofWorld (.new 1)
    let cur : Cursor Nat := ⟨0, 1, (x.opening none s).1, 0⟩
    let r := x.turn cur leaping.leap (x.opening none s).2
    have hl : r.1.led = .error (.failed (.jump (.typeMismatch "m" "even"))) := rfl
    have ht : x.trace none 1 s = [r.1] := Executor.history_of_error rfl hl
    exact ⟨r.1, leaping.post none, ht, rfl, hl, rfl, rfl, rfl⟩

end Pipeworks
