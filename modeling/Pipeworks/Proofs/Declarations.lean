import Pipeworks.Pipeline.Career

/-!
# What a pipeline keeps of its declarations

`builder_keeps_declarations`: after any calls, refused ones and forks among them, the phases of a pipeline
hold the steps that were declared for them, and it remembers the labels of these and no others. This is
what `Career.Kept` says, so that all of it is read off `Career.kept_run`; that sealing binds these steps
is read off `Pipeline.Coherent.defines`.
-/

namespace Pipeworks
variable {ω ι C : Type} [Host ω] [LocalAction ω ι C]

/-- The builder invariant. Whatever was called on a pipeline and its forks, each phase has the steps that
were declared for it in order, no two steps have the same label, and the labels remembered are theirs. A
change that fails leaves the pipeline as it was. A label given later is that of the step declared last.
Sealing never fails because of a label; the steps it binds are the declared ones, each at its index of its
phase, with its label, its marker and the name of its place. -/
theorem builder_keeps_declarations (name : String) (config : Option EngineConfig)
    (calls : List (Pipeline.Call ω ι C)) :
    let c := (Career.start name config).run calls
    let p := c.pipeline
    (∀ phase, p.specs.get phase = c.declared.inPhase phase) ∧
    (StepSpec.labels p.specs.flat).Nodup ∧ (StepSpec.labels p.specs.flat).Perm p.labels ∧
    (∀ x e, (p.edit x).1 = .error e → (p.edit x).2 = p) ∧
    (∀ label q, p.edit (.set (.labelLast label)) = (.ok (), q) →
      ∃ before phase spec, c.declared = before ++ [(phase, spec)] ∧ spec.label = none ∧
        ∀ ph, q.specs.get ph = Declarations.inPhase (before ++ [(phase, spec.withLabel label)]) ph) ∧
    (∀ s e s', p.sealPlan s = (.error (.error e), s') → e.code? ≠ some "CONFIG-001-DUPLICATE_LABEL") ∧
    ∀ s plan q s', p.sealPlan s = (.ok (plan, q), s') → ∃ d, plan = .ofDefinition d ∧ d.name = p.name ∧
      ∀ phase, StepSpec.BindFrom p.site phase 0 (c.declared.inPhase phase) (d.steps.get phase) := by
  intro c p
  have h : c.Kept := Career.kept_run name config calls
  refine ⟨h.specs, h.labelled.nodup_steps, h.labelled.perm, fun x e he => Pipeline.edit_of_error he,
    fun label q hq => ?_, fun s e s' hs => Pipeline.sealPlan_eq_error h.labelled hs,
    fun s plan q s' hs => ?_⟩
  · obtain ⟨before, phase, spec, hd, hnone, hkept⟩ := h.labelLast (Pipeline.edit_eq_ok.1 hq)
    exact ⟨before, phase, spec, hd, hnone, hkept.specs⟩
  · obtain ⟨d, rfl, hd⟩ := h.coherent.defines hs
    refine ⟨d, rfl, hd.name, fun phase => ?_⟩
    rw [← h.specs]
    exact hd.steps phase

end Pipeworks
