import Mathlib.Data.List.Perm.Basic
import Mathlib.Data.List.Nodup
import Pipeworks.Pipeline.Setting
/-!
# Changes of pipelines and their labels

What a change that was accepted has done to a pipeline: `addStep_eq_ok` for a step, `set_eq_ok` for a
setting. The labels that a pipeline remembers are those of its steps, and no two steps share one
(`Labelled`).
-/

namespace Pipeworks

/-- The labels of a listing of steps, in order. -/
def StepSpec.labels {ω ι C : Type} (specs : List (StepSpec ω ι C)) : List String :=
  specs.filterMap (·.label)

namespace ByPhase
variable {α : Type}

theorem flat_push_perm (b : ByPhase (List α)) (ph : Phase) (a : α) :
    (b.push ph a).flat.Perm (a :: b.flat) := by
  cases ph with
  | pre =>
    have h : (b.pre ++ [a]).Perm (a :: b.pre) := List.perm_append_singleton a b.pre
    exact (h.append_right b.main).append_right b.post
  | main =>
    have h : (b.pre ++ (b.main ++ [a])).Perm (a :: (b.pre ++ b.main)) := by
      rw [← List.append_assoc]
      exact List.perm_append_singleton a _
    exact h.append_right b.post
  | post =>
    have h : (b.pre ++ b.main ++ (b.post ++ [a])).Perm (a :: (b.pre ++ b.main ++ b.post)) := by
      rw [← List.append_assoc]
      exact List.perm_append_singleton a _
    exact h

theorem mem_flat {b : ByPhase (List α)} {a : α} : a ∈ b.flat ↔ ∃ ph, a ∈ b.get ph := by
  simp only [flat, List.mem_append]
  constructor
  · rintro ((h | h) | h)
    · exact ⟨.pre, h⟩
    · exact ⟨.main, h⟩
    · exact ⟨.post, h⟩
  · rintro ⟨ph, h⟩
    cases ph with
    | pre => exact .inl (.inl h)
    | main => exact .inl (.inr h)
    | post => exact .inr h

theorem get_push (b : ByPhase (List α)) (ph q : Phase) (a : α) :
    (b.push ph a).get q = if ph = q then b.get q ++ [a] else b.get q := by
  split
  · rename_i h
    rw [← h, push, get_modify]
  · rename_i h
    rw [push, get_modify_ne _ _ (Ne.symm h)]

theorem modify_concat (b : ByPhase (List α)) (ph : Phase) (l : List α) (a : α) :
    b.modify (fun _ => l ++ [a]) ph = (b.modify (fun _ => l) ph).push ph a := by
  cases ph <;> rfl

theorem eq_push_of_get {b : ByPhase (List α)} {ph : Phase} {l : List α} {a : α} (h : b.get ph = l ++ [a]) :
    b = (b.modify (fun _ => l) ph).push ph a := by
  rw [← modify_concat, ← h]
  cases ph <;> rfl

end ByPhase

namespace Pipeline
variable {ω ι C : Type} {p q : Pipeline ω ι C}

/-! ### Changes that are accepted -/

theorem change_eq_ok {operation : String} {f : Pipeline ω ι C → Except ConfigError (Pipeline ω ι C)}
    (h : p.change operation f = .ok q) : p.plan = none ∧ f p = .ok q := by
  unfold change at h
  split at h
  · cases h
  · rename_i hs
    exact ⟨by simpa [isSealed] using hs, h⟩

theorem takeLabel_eq_ok {label : String} (h : p.takeLabel label = .ok q) :
    label ∉ p.labels ∧ q = { p with labels := p.labels ++ [label] } := by
  unfold takeLabel at h
  split at h
  · cases h
  · rename_i hl
    exact ⟨by simpa using hl, (Except.ok.inj h).symm⟩

/-- A step that was added stands behind the others of its phase, and its label was not in use. -/
theorem addStep_eq_ok {phase : Phase} {spec : StepSpec ω ι C} (h : p.addStep phase spec = .ok q) :
    p.plan = none ∧ (∀ label, spec.label = some label → label ∉ p.labels) ∧
      q = { p with specs := p.specs.push phase spec, lastPhase := some phase
                   labels := p.labels ++ spec.label.toList } := by
  obtain ⟨hplan, h⟩ := change_eq_ok h
  refine ⟨hplan, ?_⟩
  cases hl : spec.label with
  | none =>
    rw [hl] at h
    refine ⟨fun label h => (by cases h), ?_⟩
    rw [Option.toList_none, List.append_nil]
    exact (Except.ok.inj h).symm
  | some label =>
    rw [hl, Option.elim_some] at h
    obtain ⟨r, ht, h⟩ := ConfigError.bind_eq_ok.1 h
    obtain ⟨hnew, rfl⟩ := takeLabel_eq_ok ht
    exact ⟨fun l hs => Option.some.inj hs ▸ hnew, (Except.ok.inj h).symm⟩

theorem addStep_eq_error {phase : Phase} {spec : StepSpec ω ι C} {e : ConfigError} (hplan : p.plan = none)
    (h : p.addStep phase spec = .error e) :
    ∃ label ∈ p.labels, spec.label = some label ∧ e = .duplicateLabel p.name label := by
  have hopen : p.isSealed = false := by rw [isSealed, hplan]; rfl
  rw [addStep, change, hopen, if_neg Bool.false_ne_true] at h
  cases hl : spec.label with
  | none =>
    rw [hl] at h
    cases h
  | some label =>
    rw [hl, Option.elim_some, takeLabel] at h
    split at h
    · rename_i hin
      cases h
      exact ⟨label, by simpa using hin, rfl, rfl⟩
    · cases h

/-- Settings other than a label leave the steps, the labels and the start alone. -/
theorem set_eq_ok {x : PipelineSetting ω C} (hx : ∀ label, x ≠ .labelLast label) (h : p.set x = .ok q) :
    p.plan = none ∧ q.plan = none ∧ q.specs = p.specs ∧ q.labels = p.labels ∧
      q.lastPhase = p.lastPhase ∧ q.startLabel = p.startLabel := by
  cases x with
  | labelLast label => exact absurd rfl (hx label)
  | defaultPoolMax max =>
    rw [set, setDefaultPoolMax] at h
    obtain ⟨hplan, h⟩ := change_eq_ok h
    split at h
    · cases h
    · obtain rfl := Except.ok.inj h
      exact ⟨hplan, hplan, rfl, rfl, rfl, rfl⟩
  | shortCircuitOnException on | prePostAbort on | errorHandler g | jumpsEnabled on | maxJumps max
  | sleeper s | sink s | cache c =>
    simp only [set, setShortCircuitOnException, setPrePostAbort, setErrorHandler, setJumpsEnabled,
      setMaxJumps, setSleeper, setSink, setCache] at h
    obtain ⟨hplan, h⟩ := change_eq_ok h
    obtain rfl := Except.ok.inj h
    exact ⟨hplan, hplan, rfl, rfl, rfl, rfl⟩

/-- A step that was labelled later had no label. It is the last one of the phase that was added to last, and
its label was not in use. -/
theorem labelLast_eq_ok {label : String} (h : p.labelLast label = .ok q) :
    p.plan = none ∧ label ∉ p.labels ∧ ∃ phase before spec, p.lastPhase = some phase ∧
      p.specs.get phase = before ++ [spec] ∧ spec.label = none ∧
      q = { p with specs := p.specs.modify (fun _ => before ++ [spec.withLabel label]) phase
                   labels := p.labels ++ [label] } := by
  obtain ⟨hplan, h⟩ := change_eq_ok h
  split at h
  · cases h
  · rename_i phase before spec hlast
    split at h
    · cases h
    · rename_i hnone
      obtain ⟨r, ht, h⟩ := ConfigError.bind_eq_ok.1 h
      obtain ⟨hnew, rfl⟩ := takeLabel_eq_ok ht
      obtain ⟨ph, hph, hu⟩ := Option.bind_eq_some_iff.1 hlast
      obtain ⟨⟨before', spec'⟩, hu, heq⟩ := Option.map_eq_some_iff.1 hu
      cases heq
      obtain ⟨last, hget, heq⟩ := Option.map_eq_some_iff.1 hu
      cases heq
      refine ⟨hplan, hnew, phase, _, spec, hph, ?_, hnone, (Except.ok.inj h).symm⟩
      exact (List.dropLast_append_getLast? spec hget).symm

/-- A step can only be labelled later if it has no label yet. -/
theorem unlabelled_of_labelLast {label : String} (h : p.labelLast label = .ok q) :
    ∃ spec ∈ p.specs.flat, spec.label = none := by
  obtain ⟨-, -, phase, before, spec, -, hget, hnone, -⟩ := labelLast_eq_ok h
  have hmem : spec ∈ p.specs.get phase := by
    rw [hget]
    exact List.mem_append_right _ (List.mem_singleton_self spec)
  exact ⟨spec, ByPhase.mem_flat.2 ⟨phase, hmem⟩, hnone⟩

/-! ### Labels -/

/-- The labels remembered are those of the steps, each on one step. -/
structure Labelled (p : Pipeline ω ι C) : Prop where
  nodup : p.labels.Nodup
  perm : (StepSpec.labels p.specs.flat).Perm p.labels

theorem Labelled.nodup_steps (h : p.Labelled) : (StepSpec.labels p.specs.flat).Nodup :=
  h.perm.nodup_iff.2 h.nodup

theorem Labelled.congr (h : p.Labelled) (hs : q.specs = p.specs) (hl : q.labels = p.labels) :
    q.Labelled :=
  ⟨hl ▸ h.nodup, by rw [hs, hl]; exact h.perm⟩

theorem labelled_new [Host ω] (name : String) : (new name : Pipeline ω ι C).Labelled :=
  ⟨.nil, .refl _⟩

theorem Labelled.concat {label : String} (h : p.Labelled) (hnew : label ∉ p.labels)
    (hs : (StepSpec.labels q.specs.flat).Perm (label :: StepSpec.labels p.specs.flat))
    (hl : q.labels = p.labels ++ [label]) : q.Labelled := by
  refine ⟨?_, ?_⟩ <;> rw [hl]
  · rw [← List.concat_eq_append]
    exact h.nodup.concat hnew
  · exact (hs.trans (h.perm.cons label)).trans (List.perm_append_singleton label _).symm

theorem Labelled.addStep {phase : Phase} {spec : StepSpec ω ι C} (h : p.Labelled)
    (hq : p.addStep phase spec = .ok q) : q.Labelled := by
  obtain ⟨-, hnew, rfl⟩ := addStep_eq_ok hq
  have hsteps := (p.specs.flat_push_perm phase spec).filterMap (·.label)
  cases hl : spec.label with
  | none =>
    rw [List.filterMap_cons_none hl] at hsteps
    refine ⟨?_, ?_⟩ <;> rw [Option.toList_none, List.append_nil]
    · exact h.nodup
    · exact hsteps.trans h.perm
  | some label =>
    rw [List.filterMap_cons_some hl] at hsteps
    exact h.concat (hnew label hl) hsteps rfl

theorem Labelled.labelLast {label : String} (h : p.Labelled) (hq : p.labelLast label = .ok q) :
    q.Labelled := by
  obtain ⟨-, hnew, phase, before, spec, -, hget, hnone, rfl⟩ := labelLast_eq_ok hq
  -- Both pipelines have the same steps but for the last one, which is pushed behind them.
  let rest := p.specs.modify (fun _ => before) phase
  have hsteps := (rest.flat_push_perm phase spec).filterMap (·.label)
  have hsteps' := (rest.flat_push_perm phase (spec.withLabel label)).filterMap (·.label)
  rw [← ByPhase.eq_push_of_get hget, List.filterMap_cons_none hnone] at hsteps
  have hlabel : (spec.withLabel label).label = some label := rfl
  rw [← ByPhase.modify_concat, List.filterMap_cons_some hlabel] at hsteps'
  exact h.concat hnew (hsteps'.trans (hsteps.symm.cons label)) rfl

end Pipeline
end Pipeworks
