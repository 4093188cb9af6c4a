import Mathlib.Data.List.Forall2
import Pipeworks.Naming
import Pipeworks.Pipeline.Labels
/-!
# Bound steps

A definition has the steps that were declared, in the same order and with the same labels and markers,
each bound to its place (`bind_eq_ok`), and no two of them under one name (`nodup_names_of_bind`). Only a
manager can fail where the labels are distinct (`bind_eq_error`). Steps of shared actions are always bound
then, and nothing is done to the store (`bind_shared`). A pipeline that was sealed keeps the plan of its own
steps (`Coherent`).
-/

namespace Pipeworks

namespace StepSpec
variable {ω ι C : Type} [Host ω] [LocalAction ω ι C]

/-- The step is the declared one, bound to a place. -/
structure Binds (spec : StepSpec ω ι C) (step : BoundStep ω ι C) : Prop where
  label : step.label = spec.label
  expectedInput : step.expectedInput = spec.expectedInput
  action : ∃ site s s', spec.manager.bind site s = (.ok step.action, s')

/-- The step is the declared one, bound to this place. -/
structure BindsAt (spec : StepSpec ω ι C) (site : Definition.Site) (phase : Phase) (n : Nat)
    (step : BoundStep ω ι C) : Prop where
  at_phase : step.phase = phase
  index : step.index = n
  label : step.label = spec.label
  name : step.name = phase.stepName n spec.label
  expectedInput : step.expectedInput = spec.expectedInput
  action : ∃ s s', spec.manager.bind (site.at phase n spec.label) s = (.ok step.action, s')

/-- The steps are the declared ones, each bound to its place in the phase, from an index on. -/
def BindFrom (site : Definition.Site) (phase : Phase) (n : Nat) (specs : List (StepSpec ω ι C))
    (steps : List (BoundStep ω ι C)) : Prop :=
  List.Forall₂ (fun d step => d.1.BindsAt site phase d.2 step) (specs.zipIdx n) steps

variable {site : Definition.Site} {phase : Phase} {n i : Nat} {spec : StepSpec ω ι C}
  {specs : List (StepSpec ω ι C)} {step : BoundStep ω ι C} {steps : List (BoundStep ω ι C)}

theorem BindsAt.binds (h : spec.BindsAt site phase n step) : spec.Binds step :=
  ⟨h.label, h.expectedInput, _, h.action⟩

namespace BindFrom

theorem cons (hstep : spec.BindsAt site phase n step) (h : BindFrom site phase (n + 1) specs steps) :
    BindFrom site phase n (spec :: specs) (step :: steps) :=
  List.Forall₂.cons hstep h

theorem binds (h : BindFrom site phase n specs steps) : List.Forall₂ Binds specs steps := by
  induction specs generalizing n steps with
  | nil =>
    cases h
    exact .nil
  | cons spec specs ih =>
    cases h with
    | cons hstep h => exact .cons hstep.binds (ih h)

theorem length_eq (h : BindFrom site phase n specs steps) : steps.length = specs.length :=
  h.binds.length_eq.symm

theorem labels (h : BindFrom site phase n specs steps) :
    steps.filterMap (·.label) = StepSpec.labels specs := by
  have hb := h.binds
  clear h
  induction hb with
  | nil => rfl
  | @cons spec step specs steps hb _ ih =>
    have hl : step.label = spec.label := hb.label
    rw [StepSpec.labels, List.filterMap_cons, List.filterMap_cons, hl, ih]
    rfl

theorem names (h : BindFrom site phase n specs steps) :
    steps.map (·.name) = specs.mapIdx fun i spec => phase.stepName (n + i) spec.label := by
  induction specs generalizing n steps with
  | nil =>
    cases h
    rfl
  | cons spec specs ih =>
    cases h with
    | cons hstep h =>
      rw [List.map_cons, hstep.name, ih h, List.mapIdx_cons]
      simp [Nat.add_assoc, Nat.add_comm 1]

/-- Every declared step is bound at its index. -/
theorem getElem? (h : BindFrom site phase n specs steps) (hs : specs[i]? = some spec) :
    ∃ step, steps[i]? = some step ∧ spec.BindsAt site phase (n + i) step := by
  induction specs generalizing n i steps with
  | nil => cases hs
  | cons spec' specs ih =>
    cases h with
    | cons hstep h =>
      cases i with
      | zero =>
        obtain rfl := Option.some.inj hs
        exact ⟨_, rfl, hstep⟩
      | succ i =>
        obtain ⟨step', hstep', hat⟩ := ih h hs
        exact ⟨step', hstep', by rwa [Nat.add_assoc, Nat.add_comm 1] at hat⟩

theorem of_getElem? (h : BindFrom site phase n specs steps) (hs : steps[i]? = some step) :
    ∃ spec, specs[i]? = some spec ∧ spec.BindsAt site phase (n + i) step := by
  obtain ⟨hi, -⟩ := List.getElem?_eq_some_iff.1 hs
  rw [h.length_eq] at hi
  have hspec : specs[i]? = some specs[i] := List.getElem?_eq_getElem hi
  obtain ⟨step', hstep', hat⟩ := h.getElem? hspec
  obtain rfl := Option.some.inj (hstep'.symm.trans hs)
  exact ⟨_, hspec, hat⟩

theorem name_of_mem (h : BindFrom site phase n specs steps) (hs : step ∈ steps) :
    ∃ i, step.name = phase.stepName i step.label := by
  obtain ⟨i, hi⟩ := List.getElem?_of_mem hs
  obtain ⟨spec, -, hat⟩ := h.of_getElem? hi
  exact ⟨n + i, by rw [hat.name, hat.label]⟩

theorem nodup_names (h : BindFrom site phase n specs steps) : (steps.map (·.name)).Nodup := by
  refine List.pairwise_map.2 (List.pairwise_iff_getElem.2 fun i j hi hj hij heq => ?_)
  obtain ⟨_, -, hati⟩ := h.of_getElem? (List.getElem?_eq_getElem hi)
  obtain ⟨_, -, hatj⟩ := h.of_getElem? (List.getElem?_eq_getElem hj)
  rw [hati.name, hatj.name] at heq
  obtain ⟨-, hindex, -⟩ := Phase.stepName_inj heq
  omega

theorem disjoint_names {site' : Definition.Site} {phase' : Phase} {n' : Nat}
    {specs' : List (StepSpec ω ι C)} {steps' : List (BoundStep ω ι C)} (hne : phase ≠ phase')
    (h : BindFrom site phase n specs steps) (h' : BindFrom site' phase' n' specs' steps') :
    (steps.map (·.name)).Disjoint (steps'.map (·.name)) := by
  intro name hname hname'
  obtain ⟨step, hs, rfl⟩ := List.mem_map.1 hname
  obtain ⟨step', hs', heq⟩ := List.mem_map.1 hname'
  obtain ⟨i, hi⟩ := h.name_of_mem hs
  obtain ⟨i', hi'⟩ := h'.name_of_mem hs'
  rw [hi, hi'] at heq
  exact hne (Phase.stepName_inj heq).1.symm

end BindFrom
end StepSpec

/-- There is no pool under the key of a site if instances of another kind have one. -/
theorem Manager.poolAt_eq_error {ω ι : Type} [Host ω] {site : BindSite} {kind : InstanceKind}
    {max : Option Nat} {factory : LocalFactory ω ι} {e : ConfigError} {s s' : Store ω ι}
    (h : poolAt site kind max factory s = (.error e, s')) :
    ∃ existing requested, e = .keyCollision site.cacheKey.display existing requested := by
  unfold poolAt at h
  simp only at h
  split at h
  · unfold Store.poolFor PoolCache.check at h
    split at h
    · rename_i hcheck
      cases h
      split at hcheck
      · split at hcheck
        · cases hcheck
        · cases hcheck
          exact ⟨_, _, rfl⟩
      · cases hcheck
    · cases h
    · cases h
  · cases h

/-- A manager refuses for its factory, for its instances or for the key of its pool. -/
theorem Manager.bind_eq_error {ω ι C : Type} [Host ω] [LocalAction ω ι C] {m : Manager ω ι C}
    {site : BindSite} {e : ConfigError} {s s' : Store ω ι} (h : m.bind site s = (.error (.error e), s')) :
    (∃ cause, e = .construction site.stepName cause) ∨
      (∃ typeName, e = .notResettable site.stepName typeName) ∨
      ∃ existing requested, e = .keyCollision site.cacheKey.display existing requested := by
  cases m with
  | shared action => cases h
  | perRun factory => cases h
  | pooled factory max =>
    simp only [bind, bindPooled] at h
    split at h
    · cases h
      exact .inl ⟨_, rfl⟩
    · cases h
    · split at h
      · cases h
        exact .inr (.inl ⟨_, rfl⟩)
      · split at h
        · rename_i e' t hpool
          cases h
          obtain ⟨existing, requested, rfl⟩ := poolAt_eq_error hpool
          exact .inr (.inr ⟨existing, requested, rfl⟩)
        · cases h

namespace Definition
variable {ω ι C : Type} [Host ω] [LocalAction ω ι C] {site : Site}

theorem bindStep_eq_ok {phase : Phase} {n : Nat} {spec : StepSpec ω ι C} {step : BoundStep ω ι C}
    {s s' : Store ω ι} (h : bindStep site phase n spec s = (.ok step, s')) :
    spec.BindsAt site phase n step := by
  unfold bindStep at h
  split at h
  · cases h
  · rename_i action t hbind
    cases h
    exact ⟨rfl, rfl, rfl, rfl, rfl, _, _, hbind⟩

theorem bindStep_eq_error {phase : Phase} {n : Nat} {spec : StepSpec ω ι C} {e : Halt ConfigError}
    {s s' : Store ω ι} (h : bindStep site phase n spec s = (.error e, s')) :
    spec.manager.bind (site.at phase n spec.label) s = (.error e, s') := by
  unfold bindStep at h
  split at h
  · rename_i hbind
    cases h
    exact hbind
  · cases h

theorem bindPhase_eq_ok {phase : Phase} {n : Nat} {taken taken' : List String}
    {specs : List (StepSpec ω ι C)} {steps : List (BoundStep ω ι C)} {s s' : Store ω ι}
    (h : bindPhase site phase n taken specs s = (.ok (steps, taken'), s')) :
    StepSpec.BindFrom site phase n specs steps ∧ taken' = (StepSpec.labels specs).reverse ++ taken := by
  induction specs generalizing n taken s steps with
  | nil =>
    cases h
    exact ⟨.nil, rfl⟩
  | cons spec specs ih =>
    unfold bindPhase at h
    split at h
    · cases h
    · split at h
      · cases h
      · rename_i step t hstep
        split at h
        · cases h
        · rename_i steps' taken'' u hrest
          cases h
          obtain ⟨hsteps, rfl⟩ := ih hrest
          refine ⟨.cons (bindStep_eq_ok hstep) hsteps, ?_⟩
          cases hl : spec.label <;> simp [StepSpec.labels, hl]

theorem nodup_taken {phase : Phase} {n : Nat} {taken taken' : List String}
    {specs : List (StepSpec ω ι C)} {steps : List (BoundStep ω ι C)} {s s' : Store ω ι}
    (ht : taken.Nodup) (h : bindPhase site phase n taken specs s = (.ok (steps, taken'), s')) :
    taken'.Nodup := by
  induction specs generalizing n taken s steps with
  | nil =>
    cases h
    exact ht
  | cons spec specs ih =>
    unfold bindPhase at h
    split at h
    · cases h
    · rename_i hfree
      split at h
      · cases h
      · split at h
        · cases h
        · rename_i hrest
          cases h
          refine ih ?_ hrest
          cases hl : spec.label with
          | none => exact ht
          | some label =>
            have hnew : label ∉ taken := by simpa [hl, Option.filter] using hfree
            exact List.nodup_cons.2 ⟨hnew, ht⟩

omit [Host ω] [LocalAction ω ι C] in
/-- Where no step needs a label that is taken, the first one is not refused, and takes no label of the
others. -/
theorem free_cons {taken : List String} {spec : StepSpec ω ι C} {specs : List (StepSpec ω ι C)}
    (hn : (StepSpec.labels (spec :: specs)).Nodup)
    (ht : ∀ label ∈ StepSpec.labels (spec :: specs), label ∉ taken) :
    spec.label.filter taken.contains = none ∧ (StepSpec.labels specs).Nodup ∧
      ∀ label ∈ StepSpec.labels specs, label ∉ spec.label.toList ++ taken := by
  cases hl : spec.label with
  | none =>
    rw [StepSpec.labels, List.filterMap_cons_none hl] at hn ht
    exact ⟨rfl, hn, ht⟩
  | some label =>
    rw [StepSpec.labels, List.filterMap_cons_some hl] at hn ht
    obtain ⟨hnew, hn⟩ := List.nodup_cons.1 hn
    have hfree : label ∉ taken := ht label List.mem_cons_self
    refine ⟨by simp [Option.filter, hfree], hn, fun l hl' hmem => ?_⟩
    rcases List.mem_cons.1 hmem with rfl | hmem
    · exact hnew hl'
    · exact ht l (List.mem_cons_of_mem _ hl') hmem

theorem bindPhase_eq_error {phase : Phase} {n : Nat} {taken : List String} {e : Halt ConfigError}
    {specs : List (StepSpec ω ι C)} {s s' : Store ω ι} (hn : (StepSpec.labels specs).Nodup)
    (ht : ∀ label ∈ StepSpec.labels specs, label ∉ taken)
    (h : bindPhase site phase n taken specs s = (.error e, s')) :
    ∃ spec ∈ specs, ∃ at' t t', spec.manager.bind at' t = (.error e, t') := by
  induction specs generalizing n taken s with
  | nil => cases h
  | cons spec specs ih =>
    obtain ⟨hfilter, hn, ht⟩ := free_cons hn ht
    rw [bindPhase, hfilter] at h
    simp only at h
    split at h
    · rename_i hstep
      cases h
      exact ⟨spec, List.mem_cons_self, _, _, _, bindStep_eq_error hstep⟩
    · split at h
      · rename_i hrest
        cases h
        obtain ⟨spec', hmem, hbind⟩ := ih hn ht hrest
        exact ⟨spec', List.mem_cons_of_mem _ hmem, hbind⟩
      · cases h

theorem bind_eq_ok {policy : ErrorPolicy} {handler : Option (ErrorHandler C)}
    {specs : ByPhase (List (StepSpec ω ι C))} {d : Definition ω ι C} {s s' : Store ω ι}
    (h : bind site policy handler specs s = (.ok d, s')) :
    d.name = site.pipeline ∧ d.policy = policy ∧ d.handler = handler ∧
      ∀ phase, StepSpec.BindFrom site phase 0 (specs.get phase) (d.steps.get phase) := by
  unfold bind at h
  split at h
  · cases h
  · rename_i hpre
    split at h
    · cases h
    · rename_i hmain
      split at h
      · cases h
      · rename_i hpost
        cases h
        refine ⟨rfl, rfl, rfl, fun phase => ?_⟩
        cases phase with
        | pre => exact (bindPhase_eq_ok hpre).1
        | main => exact (bindPhase_eq_ok hmain).1
        | post => exact (bindPhase_eq_ok hpost).1

theorem nodup_labels_of_bind {policy : ErrorPolicy} {handler : Option (ErrorHandler C)}
    {specs : ByPhase (List (StepSpec ω ι C))} {d : Definition ω ι C} {s s' : Store ω ι}
    (h : bind site policy handler specs s = (.ok d, s')) :
    (d.steps.flat.filterMap (·.label)).Nodup := by
  unfold bind at h
  split at h
  · cases h
  · rename_i pre taken t hpre
    split at h
    · cases h
    · rename_i main taken' t' hmain
      split at h
      · cases h
      · rename_i post taken'' t'' hpost
        cases h
        have hn : taken''.Nodup := nodup_taken (nodup_taken (nodup_taken .nil hpre) hmain) hpost
        obtain ⟨hpre', rfl⟩ := bindPhase_eq_ok hpre
        obtain ⟨hmain', rfl⟩ := bindPhase_eq_ok hmain
        obtain ⟨hpost', rfl⟩ := bindPhase_eq_ok hpost
        -- The labels taken are those of the steps, the last one first.
        rw [← List.nodup_reverse] at hn
        simpa [ByPhase.flat, hpre'.labels, hmain'.labels, hpost'.labels] using hn

theorem nodup_names_of_bind {policy : ErrorPolicy} {handler : Option (ErrorHandler C)}
    {specs : ByPhase (List (StepSpec ω ι C))} {d : Definition ω ι C} {s s' : Store ω ι}
    (h : bind site policy handler specs s = (.ok d, s')) : (d.steps.flat.map (·.name)).Nodup := by
  obtain ⟨-, -, -, hsteps⟩ := bind_eq_ok h
  have hpre : StepSpec.BindFrom site .pre 0 specs.pre d.steps.pre := hsteps .pre
  have hmain : StepSpec.BindFrom site .main 0 specs.main d.steps.main := hsteps .main
  have hpost : StepSpec.BindFrom site .post 0 specs.post d.steps.post := hsteps .post
  rw [ByPhase.flat, List.map_append, List.map_append]
  refine List.Nodup.append (List.Nodup.append hpre.nodup_names hmain.nodup_names ?_) hpost.nodup_names ?_
  · exact hpre.disjoint_names (by decide) hmain
  · rw [List.disjoint_append_left]
    exact ⟨hpre.disjoint_names (by decide) hpost, hmain.disjoint_names (by decide) hpost⟩

omit [Host ω] [LocalAction ω ι C] in
/-- Where no two steps have the same label, none of a phase needs one that the phases before it took. -/
theorem free_phases {specs : ByPhase (List (StepSpec ω ι C))} (hn : (StepSpec.labels specs.flat).Nodup) :
    (StepSpec.labels specs.pre).Nodup ∧ (StepSpec.labels specs.main).Nodup ∧
      (StepSpec.labels specs.post).Nodup ∧
      (∀ label ∈ StepSpec.labels specs.main, label ∉ (StepSpec.labels specs.pre).reverse ++ []) ∧
      ∀ label ∈ StepSpec.labels specs.post,
        label ∉ (StepSpec.labels specs.main).reverse ++ ((StepSpec.labels specs.pre).reverse ++ []) := by
  rw [ByPhase.flat, StepSpec.labels, List.filterMap_append, List.filterMap_append] at hn
  obtain ⟨hn, hnpost, hdpost⟩ := List.nodup_append.1 hn
  obtain ⟨hnpre, hnmain, hdmain⟩ := List.nodup_append.1 hn
  refine ⟨hnpre, hnmain, hnpost, fun label hl h => ?_, fun label hl h => ?_⟩
  · rw [List.append_nil, List.mem_reverse] at h
    exact hdmain label h label hl rfl
  · rw [List.append_nil, List.mem_append, List.mem_reverse, List.mem_reverse] at h
    exact hdpost label (List.mem_append.2 h.symm) label hl rfl

/-- Where no two steps have the same label, binding fails with the error of a manager. -/
theorem bind_eq_error {policy : ErrorPolicy} {handler : Option (ErrorHandler C)}
    {specs : ByPhase (List (StepSpec ω ι C))} {e : Halt ConfigError} {s s' : Store ω ι}
    (hn : (StepSpec.labels specs.flat).Nodup) (h : bind site policy handler specs s = (.error e, s')) :
    ∃ spec ∈ specs.flat, ∃ at' t t', spec.manager.bind at' t = (.error e, t') := by
  obtain ⟨hpre, hmain, hpost, hfmain, hfpost⟩ := free_phases hn
  have hfind : ∃ phase, ∃ spec ∈ specs.get phase, ∃ at' t t',
      spec.manager.bind at' t = (.error e, t') := by
    unfold bind at h
    split at h
    · rename_i hb
      cases h
      exact ⟨.pre, bindPhase_eq_error hpre (fun _ _ h => by cases h) hb⟩
    · rename_i hb
      obtain ⟨-, rfl⟩ := bindPhase_eq_ok hb
      split at h
      · rename_i hb
        cases h
        exact ⟨.main, bindPhase_eq_error hmain hfmain hb⟩
      · rename_i hb
        obtain ⟨-, rfl⟩ := bindPhase_eq_ok hb
        split at h
        · rename_i hb
          cases h
          exact ⟨.post, bindPhase_eq_error hpost hfpost hb⟩
        · cases h
  obtain ⟨phase, spec, hmem, hbind⟩ := hfind
  exact ⟨spec, ByPhase.mem_flat.2 ⟨phase, hmem⟩, hbind⟩

/-! ### Shared actions -/

theorem bindStep_shared (site : Site) (phase : Phase) (n : Nat) {spec : StepSpec ω ι C} {a : Action ω C}
    (h : spec.manager = .shared a) (s : Store ω ι) :
    ∃ step, bindStep site phase n spec s = (.ok step, s) := by
  simp only [bindStep, h, Manager.bind]
  exact ⟨_, rfl⟩

theorem bindPhase_shared (site : Site) (phase : Phase) (n : Nat) (taken : List String)
    {specs : List (StepSpec ω ι C)} (s : Store ω ι)
    (hs : ∀ spec ∈ specs, ∃ a, spec.manager = .shared a) (hn : (StepSpec.labels specs).Nodup)
    (ht : ∀ label ∈ StepSpec.labels specs, label ∉ taken) :
    ∃ steps, bindPhase site phase n taken specs s =
      (.ok (steps, (StepSpec.labels specs).reverse ++ taken), s) := by
  induction specs generalizing n taken with
  | nil => exact ⟨[], rfl⟩
  | cons spec specs ih =>
    obtain ⟨a, ha⟩ := hs spec List.mem_cons_self
    obtain ⟨step, hstep⟩ := bindStep_shared site phase n ha s
    obtain ⟨hfilter, hn, ht⟩ := free_cons hn ht
    obtain ⟨steps, hrest⟩ := ih (n + 1) _ (fun _ h => hs _ (List.mem_cons_of_mem _ h)) hn ht
    refine ⟨step :: steps, ?_⟩
    simp only [bindPhase, hfilter, hstep, hrest]
    cases hl : spec.label <;> simp [StepSpec.labels, hl]

theorem bind_shared (site : Site) (policy : ErrorPolicy) (handler : Option (ErrorHandler C))
    {specs : ByPhase (List (StepSpec ω ι C))} (s : Store ω ι)
    (hs : ∀ spec ∈ specs.flat, ∃ a, spec.manager = .shared a)
    (hn : (StepSpec.labels specs.flat).Nodup) :
    ∃ d, bind site policy handler specs s = (.ok d, s) := by
  obtain ⟨hnpre, hnmain, hnpost, hfmain, hfpost⟩ := free_phases hn
  obtain ⟨hs, hspost⟩ := List.forall_mem_append.1 hs
  obtain ⟨hspre, hsmain⟩ := List.forall_mem_append.1 hs
  obtain ⟨pre, hpre⟩ := bindPhase_shared site .pre 0 [] s hspre hnpre fun _ _ h => by cases h
  obtain ⟨main, hmain⟩ := bindPhase_shared site .main 0 _ s hsmain hnmain hfmain
  obtain ⟨post, hpost⟩ := bindPhase_shared site .post 0 _ s hspost hnpost hfpost
  refine ⟨⟨site.pipeline, policy, handler, ⟨pre, main, post⟩⟩, ?_⟩
  simp only [bind, hpre, hmain, hpost]

end Definition

namespace Pipeline
variable {ω ι C : Type} [Host ω] [LocalAction ω ι C] {p q : Pipeline ω ι C}

theorem sealPlan_of_plan {plan : Plan ω ι C} (h : p.plan = some plan) (s : Store ω ι) :
    p.sealPlan s = (.ok (plan, p), s) := by
  simp only [Pipeline.sealPlan, h]

theorem sealPlan_of_error {e : Halt ConfigError} {s t : Store ω ι} (h : p.plan = none)
    (hb : Definition.bind p.site p.policy p.handler p.specs s = (.error e, t)) :
    p.sealPlan s = (.error e, t) := by
  simp only [Pipeline.sealPlan, h, hb]

theorem sealPlan_of_bind {d : Definition ω ι C} {s t : Store ω ι} (h : p.plan = none)
    (hb : Definition.bind p.site p.policy p.handler p.specs s = (.ok d, t)) :
    p.sealPlan s = (.ok (.ofDefinition d, { p with plan := some (.ofDefinition d) }), t) := by
  simp only [Pipeline.sealPlan, h, hb]

/-- The plan of a sealed pipeline is one of its own steps. -/
def Coherent (p : Pipeline ω ι C) : Prop :=
  ∀ plan, p.plan = some plan → ∃ s s' d, Definition.bind p.site p.policy p.handler p.specs s = (.ok d, s') ∧
    plan = .ofDefinition d

theorem coherent_of_unsealed (h : p.plan = none) : p.Coherent := fun plan hp => by
  rw [h] at hp
  cases hp

/-- Sealing keeps everything but the plan, which is one of the steps. -/
theorem sealPlan_eq_ok {plan : Plan ω ι C} {s s' : Store ω ι} (hp : p.Coherent)
    (h : p.sealPlan s = (.ok (plan, q), s')) :
    q = { p with plan := some plan } ∧ ∃ t t' d,
      Definition.bind p.site p.policy p.handler p.specs t = (.ok d, t') ∧ plan = .ofDefinition d := by
  unfold sealPlan at h
  split at h
  · rename_i plan' hplan
    cases h
    refine ⟨?_, hp plan hplan⟩
    rw [← hplan]
  · split at h
    · cases h
    · rename_i d t hbind
      cases h
      exact ⟨rfl, _, _, _, hbind, rfl⟩

theorem Coherent.sealPlan {plan : Plan ω ι C} {s s' : Store ω ι} (hp : p.Coherent)
    (h : p.sealPlan s = (.ok (plan, q), s')) : q.Coherent := by
  obtain ⟨rfl, hplan⟩ := sealPlan_eq_ok hp h
  intro plan' heq
  cases heq
  exact hplan

/-- The definition has the steps of the pipeline, each bound to its place, with its policy and handler. -/
structure Defines (p : Pipeline ω ι C) (d : Definition ω ι C) : Prop where
  name : d.name = p.name
  policy : d.policy = p.policy
  handler : d.handler = p.handler
  steps : ∀ phase, StepSpec.BindFrom p.site phase 0 (p.specs.get phase) (d.steps.get phase)

theorem Defines.labels {d : Definition ω ι C} (h : p.Defines d) :
    d.steps.flat.filterMap (·.label) = StepSpec.labels p.specs.flat := by
  have hpre : d.steps.pre.filterMap (·.label) = StepSpec.labels p.specs.pre := (h.steps .pre).labels
  have hmain : d.steps.main.filterMap (·.label) = StepSpec.labels p.specs.main := (h.steps .main).labels
  have hpost : d.steps.post.filterMap (·.label) = StepSpec.labels p.specs.post := (h.steps .post).labels
  simp only [ByPhase.flat, List.filterMap_append, StepSpec.labels] at hpre hmain hpost ⊢
  rw [hpre, hmain, hpost]

theorem Coherent.defines {plan : Plan ω ι C} {s s' : Store ω ι} (hp : p.Coherent)
    (h : p.sealPlan s = (.ok (plan, q), s')) : ∃ d, plan = .ofDefinition d ∧ p.Defines d := by
  obtain ⟨-, t, t', d, hbind, rfl⟩ := sealPlan_eq_ok hp h
  obtain ⟨hname, hpolicy, hhandler, hsteps⟩ := Definition.bind_eq_ok hbind
  exact ⟨d, rfl, hname, hpolicy, hhandler, hsteps⟩

/-- Sealing fails because a manager refuses, never because of a label. -/
theorem sealPlan_eq_error {e : ConfigError} {s s' : Store ω ι} (hl : p.Labelled)
    (h : p.sealPlan s = (.error (.error e), s')) :
    e.code? ≠ some "CONFIG-001-DUPLICATE_LABEL" := by
  unfold sealPlan at h
  split at h
  · cases h
  · split at h
    · rename_i hbind
      cases h
      obtain ⟨spec, -, at', t, t', hspec⟩ := Definition.bind_eq_error hl.nodup_steps hbind
      rcases Manager.bind_eq_error hspec with ⟨cause, rfl⟩ | ⟨typeName, rfl⟩ | ⟨existing, requested, rfl⟩
      · show some "CONFIG-006-CONSTRUCTION" ≠ some "CONFIG-001-DUPLICATE_LABEL"
        decide
      · show some "CONFIG-003-NOT_RESETTABLE" ≠ some "CONFIG-001-DUPLICATE_LABEL"
        decide
      · show some "CONFIG-004-KEY_COLLISION" ≠ some "CONFIG-001-DUPLICATE_LABEL"
        decide
    · cases h

theorem sealPlan_shared (hl : p.Labelled) (hs : ∀ spec ∈ p.specs.flat, ∃ a, spec.manager = .shared a)
    (s : Store ω ι) : ∃ plan q, p.sealPlan s = (.ok (plan, q), s) := by
  unfold Pipeline.sealPlan
  split
  · exact ⟨_, _, rfl⟩
  · obtain ⟨d, hd⟩ := Definition.bind_shared p.site p.policy p.handler s hs hl.nodup_steps
    simp only [hd]
    exact ⟨_, _, rfl⟩

end Pipeline
end Pipeworks
