import Pipeworks.Bench
import Pipeworks.Pipeline.Chronicle
import Pipeworks.Pipeline.Shared

/-!
# What a session is frozen into

`freezing_keeps_names`: the recording of a session is what was bound since it was cleared last. It can be frozen
exactly if no label is in it twice, and the steps of the pipeline go by the names that the session gave them,
because an index of the session is always the length of what it has recorded for the phase.
-/

namespace Pipeworks

namespace Pipeline
variable {ω ι C : Type} {p q : Pipeline ω ι C}

theorem addAll_eq_error {phase : Phase} {l : List (StepSpec ω ι C)} {e : ConfigError} (hp : p.Labelled)
    (hplan : p.plan = none) (h : Session.addAll p phase l = .error e) :
    ∃ label, e = .duplicateLabel p.name label ∧ ¬(StepSpec.labels (p.specs.flat ++ l)).Nodup := by
  induction l generalizing p with
  | nil => cases h
  | cons spec l ih =>
    rw [Session.addAll, List.foldlM_cons] at h
    rcases ConfigError.bind_eq_error.1 h with hadd | ⟨r, hadd, h⟩
    · obtain ⟨label, hmem, hl, rfl⟩ := addStep_eq_error hplan hadd
      refine ⟨label, rfl, fun hn => ?_⟩
      rw [StepSpec.labels, List.filterMap_append, List.filterMap_cons_some hl] at hn
      exact (List.nodup_append.1 hn).2.2 label (hp.perm.mem_iff.2 hmem) label List.mem_cons_self rfl
    · have hr := hp.addStep hadd
      obtain ⟨-, -, rfl⟩ := addStep_eq_ok hadd
      obtain ⟨label, he, hn⟩ := ih hr hplan h
      refine ⟨label, he, fun hnodup => hn ?_⟩
      -- The step that was added stands with the others of its phase now, and not at the head of the rest.
      have hperm : ((p.specs.push phase spec).flat ++ l).Perm (p.specs.flat ++ spec :: l) :=
        ((p.specs.flat_push_perm phase spec).append_right l).trans List.perm_middle.symm
      exact (hperm.filterMap StepSpec.label).nodup_iff.2 hnodup

theorem setAll_eq_ok {settings : List (PipelineSetting ω C)} (hplan : p.plan = none)
    (hx : ∀ x ∈ settings, ∀ label, x ≠ .labelLast label) (h : settings.foldlM set p = .ok q) :
    q.plan = none ∧ q.specs = p.specs := by
  induction settings generalizing p with
  | nil =>
    cases h
    exact ⟨hplan, rfl⟩
  | cons x settings ih =>
    rw [List.foldlM_cons] at h
    obtain ⟨r, hset, h⟩ := ConfigError.bind_eq_ok.1 h
    obtain ⟨-, hr, hspecs, -⟩ := set_eq_ok (hx x List.mem_cons_self) hset
    obtain ⟨hq, hsame⟩ := ih hr (fun y hy => hx y (List.mem_cons_of_mem _ hy)) h
    exact ⟨hq, hsame.trans hspecs⟩

end Pipeline

namespace Session
variable {ω ι C : Type} [Host ω] {z : Session ω ι C} {e : ConfigError}

/-- A recording that cannot be frozen has a label twice, and that is the error. -/
theorem freeze_eq_error (h : z.freeze = .error e) :
    ∃ label, e = .duplicateLabel z.name label ∧ ¬(StepSpec.labels z.recorded.flat).Nodup := by
  have whole {l : List (StepSpec ω ι C)} (hl : l.Sublist z.recorded.flat) (hn : ¬(StepSpec.labels l).Nodup) :
      ¬(StepSpec.labels z.recorded.flat).Nodup := fun h => hn (h.sublist (hl.filterMap StepSpec.label))
  have hflat : z.recorded.flat = z.recorded.pre ++ z.recorded.main ++ z.recorded.post := rfl
  rw [freeze_eq] at h
  rcases ConfigError.bind_eq_error.1 h with hpre | ⟨p₁, hpre, h⟩
  · obtain ⟨label, rfl, hn⟩ := Pipeline.addAll_eq_error z.labelled_mould rfl hpre
    refine ⟨label, rfl, whole ?_ hn⟩
    rw [hflat, List.append_assoc]
    exact List.sublist_append_left _ _
  · obtain ⟨hl₁, labels₁, last₁, rfl⟩ := Pipeline.addAll_eq_ok hpre
    rcases ConfigError.bind_eq_error.1 h with hmain | ⟨p₂, hmain, hpost⟩
    · obtain ⟨label, rfl, hn⟩ := Pipeline.addAll_eq_error (hl₁ z.labelled_mould) rfl hmain
      refine ⟨label, rfl, whole ?_ hn⟩
      rw [hflat]
      simp [mould, Pipeline.new, ByPhase.modify, ByPhase.const, ByPhase.flat]
    · obtain ⟨hl₂, labels₂, last₂, rfl⟩ := Pipeline.addAll_eq_ok hmain
      obtain ⟨label, rfl, hn⟩ := Pipeline.addAll_eq_error (hl₂ (hl₁ z.labelled_mould)) rfl hpost
      refine ⟨label, rfl, whole ?_ hn⟩
      rw [hflat]
      simp [mould, Pipeline.new, ByPhase.modify, ByPhase.const, ByPhase.flat]

theorem freeze_eq_error_iff : (∃ e, z.freeze = .error e) ↔ ¬(StepSpec.labels z.recorded.flat).Nodup := by
  refine ⟨fun ⟨e, h⟩ => (freeze_eq_error h).choose_spec.2, fun hn => ?_⟩
  cases h : z.freeze with
  | error e => exact ⟨e, rfl⟩
  | ok p =>
    obtain ⟨hl, labels, last, rfl⟩ := freeze_eq_ok h
    exact absurd hl.nodup_steps hn

end Session

namespace Chronicle
variable {ω ι C : Type} {k : Chronicle ω ι C}

theorem Kept.recorded_perm (h : k.Kept) :
    k.sitting.session.recorded.flat.Perm (k.given.map (·.spec)) := by
  have hflat : k.sitting.session.recorded.flat =
      (ByPhase.flat ⟨Given.inPhase k.given .pre, Given.inPhase k.given .main,
        Given.inPhase k.given .post⟩).map (·.spec) := by
    show k.sitting.session.recorded.get .pre ++ k.sitting.session.recorded.get .main ++
      k.sitting.session.recorded.get .post = _
    rw [h.recorded, h.recorded, h.recorded, ← List.map_append, ← List.map_append]
    rfl
  rw [hflat]
  exact (Given.flat_inPhase_perm k.given).map _

variable [Host ω] [LocalAction ω ι C]

/-- After any calls, the recording has exactly the steps that were bound since it was cleared last, in order
within each phase. It cannot be frozen exactly if two of them have the same label, and the error says so.
Otherwise the frozen pipeline has exactly those steps; whenever it is sealed, perhaps with other settings than
labels made before, the steps of each phase go by the names that the session gave them. A step that cannot be
bound is answered with its error, and the session stays as it is. -/
theorem freezing_keeps_names (name : String) (sc : Bool) (initial : C) (handler : Option (ErrorHandler C))
    (s : Store ω ι) (calls : List (Session.Call ω ι C)) :
    let k := (start name sc initial handler s).run calls
    let z := k.sitting.session
    k.sitting = (Sitting.start name sc initial handler s).run calls ∧
    (∀ phase, z.recorded.get phase = (Given.inPhase k.given phase).map (·.spec)) ∧
    ((∃ e, z.freeze = .error e) ↔ ¬(StepSpec.labels (k.given.map (·.spec))).Nodup) ∧
    (∀ e, z.freeze = .error e → e.code? = some "CONFIG-001-DUPLICATE_LABEL") ∧
    (∀ p, z.freeze = .ok p →
      (∀ phase, p.specs.get phase = (Given.inPhase k.given phase).map (·.spec)) ∧
      ∀ (settings : List (PipelineSetting ω C)) q, (∀ x ∈ settings, ∀ label, x ≠ .labelLast label) →
        settings.foldlM Pipeline.set p = .ok q →
        ∀ t plan q' t', q.sealPlan t = (.ok (plan, q'), t') → ∀ phase,
          (plan.definition.steps.get phase).map (·.name) = (Given.inPhase k.given phase).map (·.name)) ∧
    ∀ phase spec e t, z.ended = false →
      spec.manager.bind ⟨z.name, phase, z.nextIndex.get phase, spec.label, none, none⟩ k.sitting.store =
        (.error e, t) →
      (z.addStep phase spec k.sitting.store).2 = (z, t) ∧
        ∀ c, e = .error c → (z.addStep phase spec k.sitting.store).1 = .failed (.configuration c) := by
  intro k z
  have h : k.Kept := kept_run name sc initial handler s calls
  have hlabels : (StepSpec.labels z.recorded.flat).Nodup ↔ (StepSpec.labels (k.given.map (·.spec))).Nodup :=
    (h.recorded_perm.filterMap StepSpec.label).nodup_iff
  refine ⟨sitting_run _ calls, h.recorded, ?_, fun e he => ?_, fun p hp => ?_, fun phase spec e t hz hbind => ?_⟩
  · rw [Session.freeze_eq_error_iff, hlabels]
  · obtain ⟨label, rfl, -⟩ := Session.freeze_eq_error he
    rfl
  · obtain ⟨-, labels, last, rfl⟩ := Session.freeze_eq_ok hp
    refine ⟨h.recorded, fun settings q hx hset t plan q' t' hseal phase => ?_⟩
    obtain ⟨hplan, hspecs⟩ := Pipeline.setAll_eq_ok rfl hx hset
    obtain ⟨d, rfl, hd⟩ := (Pipeline.coherent_of_unsealed hplan).defines hseal
    have hsteps : StepSpec.BindFrom q.site phase 0 (z.recorded.get phase) (d.steps.get phase) := by
      have hbound := hd.steps phase
      rwa [hspecs] at hbound
    show (d.steps.get phase).map (·.name) = _
    rw [hsteps.names, h.recorded, h.names, List.mapIdx_eq_iff]
    simp [Function.comp_def]
  · exact Session.addStep_of_refused hz hbind

end Chronicle
end Pipeworks
