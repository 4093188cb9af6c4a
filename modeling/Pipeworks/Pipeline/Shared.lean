import Pipeworks.Pipeline.Calls
import Pipeworks.Pipeline.Runs

/-!
# Steps of shared actions

A step of a shared action is bound by its place alone (`SharedStep.boundAt`). `bind_specs`: a pipeline of such
steps is bound to them, each at its place, and `freeze_eq_ok` says which pipeline a session is frozen into.
-/

namespace Pipeworks

structure SharedStep (ω C : Type) where
  action : Action ω C
  label : Option String
  expectedInput : Option (Marker C)

namespace SharedStep
variable {ω ι C : Type}

def spec (st : SharedStep ω C) : StepSpec ω ι C := ⟨.shared st.action, st.label, st.expectedInput⟩

def boundAt (st : SharedStep ω C) (phase : Phase) (n : Nat) : BoundStep ω ι C :=
  ⟨phase, n, st.label, phase.stepName n st.label, .shared st.action, st.expectedInput⟩

/-- The steps of a phase from an index on, bound to their places. -/
def placedFrom (phase : Phase) (n : Nat) (l : List (SharedStep ω C)) : List (BoundStep ω ι C) :=
  l.mapIdx fun i st => st.boundAt phase (n + i)

theorem placedFrom_cons (phase : Phase) (n : Nat) (st : SharedStep ω C) (l : List (SharedStep ω C)) :
    (placedFrom phase n (st :: l) : List (BoundStep ω ι C)) =
      st.boundAt phase n :: placedFrom phase (n + 1) l := by
  simp [placedFrom, List.mapIdx_cons, Nat.add_assoc, Nat.add_comm 1]

theorem placedFrom_concat (phase : Phase) (n : Nat) (l : List (SharedStep ω C)) (st : SharedStep ω C) :
    (placedFrom phase n (l ++ [st]) : List (BoundStep ω ι C)) =
      placedFrom phase n l ++ [st.boundAt phase (n + l.length)] := by
  simp [placedFrom, List.mapIdx_append]

def specs (b : ByPhase (List (SharedStep ω C))) : ByPhase (List (StepSpec ω ι C)) :=
  ⟨b.pre.map spec, b.main.map spec, b.post.map spec⟩

/-- The steps in running order, bound to their places. -/
def placed (b : ByPhase (List (SharedStep ω C))) : List (BoundStep ω ι C) :=
  placedFrom .pre 0 b.pre ++ placedFrom .main 0 b.main ++ placedFrom .post 0 b.post

theorem specs_push (b : ByPhase (List (SharedStep ω C))) (phase : Phase) (st : SharedStep ω C) :
    (specs (b.push phase st) : ByPhase (List (StepSpec ω ι C))) = (specs b).push phase st.spec := by
  cases phase <;> simp [specs, ByPhase.push, ByPhase.modify]

/-- A step that is added behind all others is the last one to run. -/
theorem placed_push (b : ByPhase (List (SharedStep ω C))) {phase : Phase} (st : SharedStep ω C)
    (h : ∀ later, ¬later ≤ phase → b.get later = []) :
    (placed (b.push phase st) : List (BoundStep ω ι C)) =
      placed b ++ [st.boundAt phase (b.get phase).length] := by
  cases phase with
  | pre =>
    have hmain : b.main = [] := h .main (by decide)
    have hpost : b.post = [] := h .post (by decide)
    simp [placed, ByPhase.push, ByPhase.modify, ByPhase.get, hmain, hpost, placedFrom]
  | main =>
    have hpost : b.post = [] := h .post (by decide)
    simp [placed, ByPhase.push, ByPhase.modify, ByPhase.get, hpost, placedFrom]
  | post =>
    simp [placed, ByPhase.push, ByPhase.modify, ByPhase.get, placedFrom_concat]

theorem mem_specs {b : ByPhase (List (SharedStep ω C))} {spec : StepSpec ω ι C} (h : spec ∈ (specs b).flat) :
    ∃ a, spec.manager = .shared a := by
  have hmem : ∃ l : List (SharedStep ω C), spec ∈ l.map SharedStep.spec := by
    simp only [ByPhase.flat, specs, List.mem_append] at h
    rcases h with (h | h) | h
    · exact ⟨_, h⟩
    · exact ⟨_, h⟩
    · exact ⟨_, h⟩
  obtain ⟨l, hl⟩ := hmem
  obtain ⟨st, -, rfl⟩ := List.mem_map.1 hl
  exact ⟨st.action, rfl⟩

end SharedStep

namespace Definition
open SharedStep
variable {ω ι C : Type} [Host ω] [LocalAction ω ι C] {site : Site}

theorem bindPhase_specs {phase : Phase} {n : Nat} {taken taken' : List String} {l : List (SharedStep ω C)}
    {steps : List (BoundStep ω ι C)} {s s' : Store ω ι}
    (h : bindPhase site phase n taken (l.map spec) s = (.ok (steps, taken'), s')) :
    steps = placedFrom phase n l := by
  induction l generalizing n taken s steps with
  | nil =>
    cases h
    rfl
  | cons st l ih =>
    rw [List.map_cons, bindPhase] at h
    split at h
    · cases h
    · have hstep : bindStep site phase n (st.spec : StepSpec ω ι C) s = (.ok (st.boundAt phase n), s) := rfl
      rw [hstep] at h
      simp only at h
      split at h
      · cases h
      · rename_i rest taken'' u hrest
        cases h
        rw [placedFrom_cons, ih hrest]

theorem bind_specs {policy : ErrorPolicy} {handler : Option (ErrorHandler C)}
    {b : ByPhase (List (SharedStep ω C))} {d : Definition ω ι C} {s s' : Store ω ι}
    (h : bind site policy handler (specs b) s = (.ok d, s')) :
    d.policy = policy ∧ d.name = site.pipeline ∧ d.handler = handler ∧ d.steps.flat = placed b := by
  unfold bind at h
  split at h
  · cases h
  · rename_i hpre
    split at h
    · cases h
    · rename_i hmain
      split at h
      · cases h
      · rename_i hpost
        cases h
        refine ⟨rfl, rfl, rfl, ?_⟩
        rw [bindPhase_specs hpre, bindPhase_specs hmain, bindPhase_specs hpost]
        rfl

end Definition

namespace Pipeline
open SharedStep
variable {ω ι C : Type} {p q : Pipeline ω ι C}

theorem addAll_eq_ok {phase : Phase} {l : List (StepSpec ω ι C)} (h : Session.addAll p phase l = .ok q) :
    (p.Labelled → q.Labelled) ∧ ∃ labels last,
      q = { p with specs := p.specs.modify (· ++ l) phase, labels := labels, lastPhase := last } := by
  induction l generalizing p with
  | nil =>
    obtain rfl := Except.ok.inj h
    refine ⟨id, p.labels, p.lastPhase, ?_⟩
    have hspecs : p.specs.modify (· ++ []) phase = p.specs := by
      cases phase <;> simp [ByPhase.modify]
    rw [hspecs]
  | cons spec l ih =>
    rw [Session.addAll, List.foldlM_cons] at h
    obtain ⟨r, hadd, h⟩ := ConfigError.bind_eq_ok.1 h
    obtain ⟨-, -, hr⟩ := addStep_eq_ok hadd
    obtain ⟨hlabelled, labels, last, hq⟩ := ih h
    refine ⟨fun hp => hlabelled (hp.addStep hadd), labels, last, ?_⟩
    have hspecs : (p.specs.push phase spec).modify (· ++ l) phase =
        p.specs.modify (· ++ spec :: l) phase := by
      cases phase <;> simp [ByPhase.push, ByPhase.modify]
    rw [hq, hr, ← hspecs]

end Pipeline

namespace Session
variable {ω ι C : Type} [Host ω] {z : Session ω ι C} {p : Pipeline ω ι C}

/-- What a session is frozen into before its steps are added. -/
def mould (z : Session ω ι C) : Pipeline ω ι C :=
  { Pipeline.new z.name with policy := ⟨z.shortCircuitOnException, false⟩, handler := z.handler }

theorem labelled_mould (z : Session ω ι C) : z.mould.Labelled :=
  (Pipeline.labelled_new z.name).congr rfl rfl

theorem freeze_eq (z : Session ω ι C) : z.freeze = (do
    let p ← addAll z.mould .pre z.recorded.pre
    let p ← addAll p .main z.recorded.main
    addAll p .post z.recorded.post) := by
  unfold freeze mould
  cases z.handler <;> rfl

/-- A session is frozen into an unsealed pipeline of the steps it kept, with its policy and handler. -/
theorem freeze_eq_ok (h : z.freeze = .ok p) :
    p.Labelled ∧ ∃ labels last, p =
      { Pipeline.new z.name with
        policy := ⟨z.shortCircuitOnException, false⟩
        handler := z.handler
        specs := z.recorded
        labels := labels
        lastPhase := last } := by
  rw [freeze_eq] at h
  obtain ⟨p₁, hpre, h⟩ := ConfigError.bind_eq_ok.1 h
  obtain ⟨p₂, hmain, hpost⟩ := ConfigError.bind_eq_ok.1 h
  obtain ⟨hl₁, labels₁, last₁, h₁⟩ := Pipeline.addAll_eq_ok hpre
  obtain ⟨hl₂, labels₂, last₂, h₂⟩ := Pipeline.addAll_eq_ok hmain
  obtain ⟨hl₃, labels₃, last₃, h₃⟩ := Pipeline.addAll_eq_ok hpost
  refine ⟨hl₃ (hl₂ (hl₁ z.labelled_mould)), labels₃, last₃, ?_⟩
  rw [h₃, h₂, h₁]
  simp [mould, Pipeline.new, ByPhase.modify, ByPhase.const]

variable [LocalAction ω ι C] {b : ByPhase (List (SharedStep ω C))}

/-- What a session of shared actions is frozen into runs its steps, each at its place, phase by phase. -/
theorem execute_of_freeze (h : z.freeze = .ok p) (hb : z.recorded = SharedStep.specs b) (input : C)
    (s : Store ω ι) :
    ∃ d : Definition ω ι C, d.policy = ⟨z.shortCircuitOnException, false⟩ ∧ d.name = z.name ∧
      d.handler = z.handler ∧ d.steps.flat = SharedStep.placed b ∧
      (p.execute none input s).1 = ((Executor.phased (.ofDefinition d) .silent).execute none input s).1 := by
  obtain ⟨hl, labels, last, rfl⟩ := freeze_eq_ok h
  rw [hb] at hl ⊢
  obtain ⟨plan, q, hseal⟩ := Pipeline.sealPlan_shared hl (fun spec hs => SharedStep.mem_specs hs) s
  obtain ⟨rfl, t, t', d, hbind, rfl⟩ := Pipeline.sealPlan_eq_ok (Pipeline.coherent_of_unsealed rfl) hseal
  obtain ⟨hpolicy, hname, hhandler, hflat⟩ := Definition.bind_specs hbind
  refine ⟨d, hpolicy, hname, hhandler, hflat, ?_⟩
  obtain ⟨-, hrun, -⟩ := Pipeline.runs_of_sealPlan none input hseal
  exact hrun

end Session
end Pipeworks
