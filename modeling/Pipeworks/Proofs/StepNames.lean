import Pipeworks.Bench
import Pipeworks.Pipeline.Binding

/-!
# Names of steps are unambiguous

`step_names_unambiguous`: the name of a step tells its phase, its index and its label, whatever the text of the
label is. Binding names every step after its place, so no two steps of a definition go by one name.
-/

namespace Pipeworks

theorem Definition.name_of_bind {ω ι C : Type} [Host ω] [LocalAction ω ι C] {site : Site}
    {policy : ErrorPolicy} {handler : Option (ErrorHandler C)} {specs : ByPhase (List (StepSpec ω ι C))}
    {d : Definition ω ι C} {s s' : Store ω ι} (h : bind site policy handler specs s = (.ok d, s'))
    {step : BoundStep ω ι C} (hs : step ∈ d.steps.flat) :
    step.name = step.phase.stepName step.index step.label := by
  obtain ⟨-, -, -, hsteps⟩ := bind_eq_ok h
  have hphase : ∃ phase, step ∈ d.steps.get phase := by
    rw [ByPhase.flat, List.mem_append, List.mem_append] at hs
    rcases hs with (hs | hs) | hs
    · exact ⟨.pre, hs⟩
    · exact ⟨.main, hs⟩
    · exact ⟨.post, hs⟩
  obtain ⟨phase, hs⟩ := hphase
  obtain ⟨i, hi⟩ := List.getElem?_of_mem hs
  obtain ⟨spec, -, hat⟩ := (hsteps phase).of_getElem? hi
  rw [hat.name, hat.at_phase, hat.index, hat.label]

/-- Two names are the same exactly if phase, index and label are. The steps of a definition that was bound are
named after their places, so their names are pairwise distinct, whatever labels were declared for them. -/
theorem step_names_unambiguous :
    (∀ (p q : Phase) (i j : Nat) (a b : Option String),
      p.stepName i a = q.stepName j b ↔ p = q ∧ i = j ∧ a = b) ∧
    ∀ {ω ι C : Type} [Host ω] [LocalAction ω ι C] {site : Definition.Site} {policy : ErrorPolicy}
      {handler : Option (ErrorHandler C)} {specs : ByPhase (List (StepSpec ω ι C))} {d : Definition ω ι C}
      {s s' : Store ω ι}, Definition.bind site policy handler specs s = (.ok d, s') →
      (∀ step ∈ d.steps.flat, step.name = step.phase.stepName step.index step.label) ∧
        (d.steps.flat.map (·.name)).Nodup := by
  refine ⟨fun p q i j a b => ⟨Phase.stepName_inj, ?_⟩, fun h => ⟨fun step hs => ?_, ?_⟩⟩
  · rintro ⟨rfl, rfl, rfl⟩
    rfl
  · exact Definition.name_of_bind h hs
  · exact Definition.nodup_names_of_bind h

/-- Declared steps whose labels look like parts of names. -/
def thornySteps : ByPhase (List (StepSpec Bench Empty Nat)) :=
  ⟨[labelled "0"], [labelled "", .shared (.map (· + 1)), labelled "1:"], [labelled "s1", labelled ":"]⟩
where
  labelled (label : String) : StepSpec Bench Empty Nat := (StepSpec.shared (.map (· + 1))).withLabel label

theorem step_names_unambiguous_thorny :
    ∃ d : Definition Bench Empty Nat, ∃ s : Store Bench Empty,
      Definition.bind ⟨"thorny", none, none⟩ default none thornySteps s = (.ok d, s) ∧
      d.steps.flat.map (·.name) = ["pre0:0", "s0:", "s1", "s2:1:", "post0:s1", "post1::"] ∧
      (d.steps.flat.map (·.name)).Nodup ∧ Phase.main.stepName 1 (some "") ≠ Phase.main.stepName 1 none := by
  have hbind : Definition.bind ⟨"thorny", none, none⟩ default none thornySteps
      (.ofWorld (.new 1) : Store Bench Empty) = (.ok _, .ofWorld (.new 1)) := rfl
  refine ⟨_, _, hbind, by decide, (step_names_unambiguous.2 hbind).2, fun h => ?_⟩
  exact absurd ((step_names_unambiguous.1 _ _ _ _ _ _).1 h).2.2 (by decide)

end Pipeworks
