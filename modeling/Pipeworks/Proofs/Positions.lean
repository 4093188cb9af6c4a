import Pipeworks.Bench
import Pipeworks.Pipeline.Binding

/-!
# Positions of a plan

`plan_numbers_steps`: the plan of a definition that was bound numbers its steps through. A position tells the
phase and the index of its step, and a label its position, because binding leaves no label to two steps.
-/

namespace Pipeworks
namespace Plan
variable {ω ι C : Type}

/-- The first position of a phase. -/
def phaseStart (p : Plan ω ι C) : Phase → Nat
  | .pre => 0
  | .main => p.preBoundary
  | .post => p.postBoundary

theorem step?_eq_get (p : Plan ω ι C) (n : Nat) :
    p.step? n = (p.definition.steps.get (p.phaseAt n))[n - p.phaseStart (p.phaseAt n)]? := by
  unfold step? phaseAt
  split
  · rfl
  · split <;> rfl

variable {d : Definition ω ι C}

theorem indexOf?_eq_some_iff (hn : (d.steps.flat.filterMap (·.label)).Nodup) {l : String} {n : Nat} :
    (ofDefinition d).indexOf? l = some n ↔
      ∃ step, (ofDefinition d).step? n = some step ∧ step.label = some l :=
  ⟨step?_of_indexOf?, fun ⟨_, hstep, hl⟩ => indexOf?_of_step? hn hstep hl⟩

variable [Host ω] [LocalAction ω ι C] {site : Definition.Site} {policy : ErrorPolicy}
  {handler : Option (ErrorHandler C)} {specs : ByPhase (List (StepSpec ω ι C))} {s s' : Store ω ι}

theorem place_of_step? (h : Definition.bind site policy handler specs s = (.ok d, s')) {n : Nat}
    {step : BoundStep ω ι C} (hstep : (ofDefinition d).step? n = some step) :
    step.phase = (ofDefinition d).phaseAt n ∧ step.index = n - (ofDefinition d).phaseStart step.phase ∧
      (d.steps.get step.phase)[step.index]? = some step := by
  obtain ⟨-, -, -, hsteps⟩ := Definition.bind_eq_ok h
  rw [step?_eq_get] at hstep
  obtain ⟨spec, -, hat⟩ := (hsteps _).of_getElem? hstep
  have hindex := hat.index
  rw [Nat.zero_add, ← hat.at_phase] at hindex
  refine ⟨hat.at_phase, hindex, ?_⟩
  rw [hindex, hat.at_phase]
  exact hstep

end Plan

variable {ω ι C : Type} [Host ω] [LocalAction ω ι C]

/-- The plan of a bound definition is the definition, numbered through. There is a step at every position below
the size and at no other; it is the step at that place of the running order, it belongs to the phase whose
positions these are, and its index counts from the first of them. A label leads to a position exactly if the
step there carries it: to one position if it is in use, else to none. -/
theorem plan_numbers_steps {site : Definition.Site} {policy : ErrorPolicy} {handler : Option (ErrorHandler C)}
    {specs : ByPhase (List (StepSpec ω ι C))} {d : Definition ω ι C} {s s' : Store ω ι}
    (h : Definition.bind site policy handler specs s = (.ok d, s')) :
    let p := Plan.ofDefinition d
    p.preBoundary = d.steps.pre.length ∧ p.postBoundary = d.steps.pre.length + d.steps.main.length ∧
    p.size = d.steps.flat.length ∧
    (∀ n, p.size ≤ n → p.step? n = none) ∧
    (∀ n, n < p.size → ∃ step, d.steps.flat[n]? = some step ∧ p.step? n = some step ∧
      step.phase = (if n < p.preBoundary then .pre else if n < p.postBoundary then .main else .post) ∧
      step.index = n - p.phaseStart step.phase ∧ (d.steps.get step.phase)[step.index]? = some step) ∧
    (∀ l n, p.indexOf? l = some n ↔ ∃ step, p.step? n = some step ∧ step.label = some l) ∧
    (∀ l, (∃ step ∈ d.steps.flat, step.label = some l) → ∃ n, p.indexOf? l = some n ∧
      ∀ m step, p.step? m = some step → step.label = some l → m = n) ∧
    ∀ l, (∀ step ∈ d.steps.flat, step.label ≠ some l) → p.indexOf? l = none := by
  intro p
  have hlabel (l : String) (n : Nat) : p.indexOf? l = some n ↔
      ∃ step, p.step? n = some step ∧ step.label = some l :=
    Plan.indexOf?_eq_some_iff (Definition.nodup_labels_of_bind h)
  have hsize : p.size = d.steps.flat.length := by
    rw [ByPhase.flat, List.length_append, List.length_append]
    rfl
  refine ⟨rfl, rfl, hsize, fun n => (p.step?_eq_none_iff n).2, fun n hn => ?_, hlabel, ?_, fun l hl => ?_⟩
  · obtain ⟨step, hstep⟩ := Option.ne_none_iff_exists'.1 fun hnone =>
      Nat.not_le.2 hn ((p.step?_eq_none_iff n).1 hnone)
    exact ⟨step, (p.step?_eq n).symm.trans hstep, hstep, Plan.place_of_step? h hstep⟩
  · rintro l ⟨step, hmem, hl⟩
    obtain ⟨n, hn⟩ := List.getElem?_of_mem hmem
    have hfound := (hlabel l n).2 ⟨step, (p.step?_eq n).trans hn, hl⟩
    refine ⟨n, hfound, fun m other hother hcarries => ?_⟩
    exact Option.some.inj (((hlabel l m).2 ⟨other, hother, hcarries⟩).symm.trans hfound)
  · refine Plan.indexOf?_eq_none fun hmem => ?_
    obtain ⟨step, hstep, hcarries⟩ := List.mem_filterMap.1 hmem
    exact hl step hstep hcarries

/-- Declared steps of pre and post, with none of main between them. -/
def hollowSteps : ByPhase (List (StepSpec Bench Empty Nat)) :=
  ⟨[.shared (.map (· + 1)), (StepSpec.shared (.map (· + 2))).withLabel "warm"], [],
    [(StepSpec.shared (.map (· + 3))).withLabel "audit"]⟩

namespace hollowSteps

def bound : Definition Bench Empty Nat :=
  ⟨"hollow", default, none,
    ⟨[⟨.pre, 0, none, Phase.stepName .pre 0 none, .shared (.map (· + 1)), none⟩,
      ⟨.pre, 1, some "warm", Phase.stepName .pre 1 (some "warm"), .shared (.map (· + 2)), none⟩], [],
      [⟨.post, 0, some "audit", Phase.stepName .post 0 (some "audit"), .shared (.map (· + 3)), none⟩]⟩⟩

end hollowSteps

open hollowSteps in
/-- Where main is empty, post follows on pre. -/
theorem plan_numbers_steps_hollow :
    let s : Store Bench Empty := .ofWorld (.new 1)
    let p := Plan.ofDefinition bound
    Definition.bind ⟨"hollow", none, none⟩ default none hollowSteps s = (.ok bound, s) ∧
      p.step? 3 = none ∧ p.indexOf? "cold" = none ∧ p.indexOf? "audit" = some 2 ∧
      ∃ step, p.step? 2 = some step ∧ step.phase = .post ∧ step.index = 0 := by
  intro s p
  have hbind : Definition.bind ⟨"hollow", none, none⟩ default none hollowSteps s = (.ok bound, s) := rfl
  obtain ⟨-, -, -, hnone, hsome, hlabel, -, hfree⟩ := plan_numbers_steps hbind
  obtain ⟨step, -, hstep, hphase, hindex, -⟩ := hsome 2 (by decide)
  rw [hphase] at hindex
  refine ⟨hbind, hnone 3 (by decide), hfree "cold" ?_, (hlabel "audit" 2).2 ⟨_, rfl, rfl⟩, step, hstep, hphase,
    hindex⟩
  simp [bound, ByPhase.flat]

end Pipeworks
