import Mathlib.Data.List.ModifyLast
import Pipeworks.Pipeline.Edits
import Pipeworks.Pipeline.Runs
/-!
# Careers of pipelines

What is done to a pipeline, as a list of calls. A `Career` is a pipeline with the steps that were declared
and the start labels that were asked for since its last run; nothing reads these but statements about
pipelines. They are what the pipeline has in its phases, in its memory of the phase added to last and in
its queue (`Kept`), after all calls (`kept_run`).
-/

namespace Pipeworks

/-- Steps with their phases, in the order they were declared. -/
abbrev Declarations (ω ι C : Type) := List (Phase × StepSpec ω ι C)

namespace Declarations
variable {ω ι C : Type}

/-- The steps declared for a phase. -/
def inPhase (l : Declarations ω ι C) (phase : Phase) : List (StepSpec ω ι C) :=
  (l.filter (·.1 = phase)).map (·.2)

theorem inPhase_concat (l : Declarations ω ι C) (phase q : Phase) (spec : StepSpec ω ι C) :
    inPhase (l ++ [(phase, spec)]) q = if phase = q then inPhase l q ++ [spec] else inPhase l q := by
  by_cases h : phase = q
  · simp [inPhase, h]
  · simp [inPhase, h]

end Declarations

/-- The declarations behind a change that was accepted. -/
def Change.declare {ω ι C : Type} (l : Declarations ω ι C) : Change ω ι C → Declarations ω ι C
  | add phase spec => l ++ [(phase, spec)]
  | set (.labelLast label) => l.modifyLast fun d => (d.1, d.2.withLabel label)
  | set _ => l

namespace Pipeline
variable {ω ι C : Type}

/-- What can be done to a pipeline. What may bind steps or run them comes with the store that it finds. -/
inductive Call (ω ι C : Type) where
  | change (c : Change ω ι C)
  /-- Takes a fork and goes on with it. The pipeline itself stays as it is. -/
  | fork
  | jumpTo (label : String)
  | sealPlan (s : Store ω ι)
  | execute (expectedOutput : Option (Marker C)) (input : C) (s : Store ω ι)

/-- The store of a call that seals the pipeline first. -/
def Call.sealsAt? : Call ω ι C → Option (Store ω ι)
  | .sealPlan s => some s
  | .execute _ _ s => some s
  | _ => none

variable [Host ω] [LocalAction ω ι C]

/-- The pipeline behind a call. -/
def after (p : Pipeline ω ι C) : Call ω ι C → Pipeline ω ι C
  | .change c => (p.edit c).2
  | .fork => p.fork
  | .jumpTo label => p.jumpTo label
  | .sealPlan s =>
    match p.sealPlan s with
    | (.error _, _) => p
    | (.ok (_, q), _) => q
  | .execute out input s => (p.execute out input s).2.1

def afterAll (p : Pipeline ω ι C) (calls : List (Call ω ι C)) : Pipeline ω ι C := calls.foldl after p

end Pipeline

structure Career (ω ι C : Type) where
  pipeline : Pipeline ω ι C
  declared : Declarations ω ι C
  /-- The start labels since the last run that got past sealing. -/
  asked : List String

namespace Career
variable {ω ι C : Type} [Host ω] [LocalAction ω ι C]

omit [LocalAction ω ι C] in
/-- A new pipeline, with the settings of a configuration if there is one. -/
def start (name : String) (config : Option EngineConfig) : Career ω ι C :=
  ⟨config.elim (.new name) (.ofConfig name), [], []⟩

def call (c : Career ω ι C) (k : Pipeline.Call ω ι C) : Career ω ι C :=
  { pipeline := c.pipeline.after k
    declared :=
      match k with
      | .change x =>
        match (c.pipeline.edit x).1 with
        | .ok () => x.declare c.declared
        | .error _ => c.declared
      | _ => c.declared
    asked :=
      match k with
      | .jumpTo label => c.asked ++ [label]
      | .fork => []
      | .execute _ _ s =>
        match (c.pipeline.sealPlan s).1 with
        | .ok _ => []
        | .error _ => c.asked
      | _ => c.asked }

def run (c : Career ω ι C) (calls : List (Pipeline.Call ω ι C)) : Career ω ι C := calls.foldl call c

variable {c : Career ω ι C}

/-- What every call keeps holds after all of them. -/
theorem run_keeps {P : Career ω ι C → Prop} (hP : ∀ c k, P c → P (c.call k)) (h : P c)
    (calls : List (Pipeline.Call ω ι C)) : P (c.run calls) := by
  induction calls generalizing c with
  | nil => exact h
  | cons k ks ih => exact ih (hP c k h)

/-- The pipeline is as the career says. -/
structure Kept (c : Career ω ι C) : Prop where
  labelled : c.pipeline.Labelled
  coherent : c.pipeline.Coherent
  specs : ∀ phase, c.pipeline.specs.get phase = c.declared.inPhase phase
  lastPhase : c.pipeline.lastPhase = c.declared.getLast?.map (·.1)
  startLabel : c.pipeline.startLabel = c.asked.getLast?

theorem Kept.congr (h : c.Kept) {r : Pipeline ω ι C} {asked : List String}
    (hs : r.specs = c.pipeline.specs) (hl : r.labels = c.pipeline.labels)
    (hlast : r.lastPhase = c.pipeline.lastPhase) (hc : r.Coherent)
    (hstart : r.startLabel = asked.getLast?) : Kept ⟨r, c.declared, asked⟩ where
  labelled := h.labelled.congr hs hl
  coherent := hc
  specs := by rw [hs]; exact h.specs
  lastPhase := hlast.trans h.lastPhase
  startLabel := hstart

theorem kept_start (name : String) (config : Option EngineConfig) :
    (start name config : Career ω ι C).Kept := by
  have hnew : (⟨.new name, [], []⟩ : Career ω ι C).Kept :=
    ⟨Pipeline.labelled_new name, Pipeline.coherent_of_unsealed rfl, fun phase => by cases phase <;> rfl,
      rfl, rfl⟩
  cases config with
  | none => exact hnew
  | some config => exact hnew.congr rfl rfl rfl (Pipeline.coherent_of_unsealed rfl) rfl

theorem Kept.add (h : c.Kept) {phase : Phase} {spec : StepSpec ω ι C} {q : Pipeline ω ι C}
    (hq : c.pipeline.addStep phase spec = .ok q) :
    Kept ⟨q, c.declared ++ [(phase, spec)], c.asked⟩ := by
  have hl := h.labelled.addStep hq
  obtain ⟨hplan, -, rfl⟩ := Pipeline.addStep_eq_ok hq
  refine ⟨hl, Pipeline.coherent_of_unsealed hplan, fun ph => ?_, by simp, h.startLabel⟩
  rw [Declarations.inPhase_concat, ← h.specs]
  exact ByPhase.get_push _ _ _ _

/-- The step that is labelled is the one declared last. -/
theorem Kept.labelLast (h : c.Kept) {label : String} {q : Pipeline ω ι C}
    (hq : c.pipeline.labelLast label = .ok q) :
    ∃ before phase spec, c.declared = before ++ [(phase, spec)] ∧ spec.label = none ∧
      Kept ⟨q, before ++ [(phase, spec.withLabel label)], c.asked⟩ := by
  have hl := h.labelled.labelLast hq
  obtain ⟨hplan, -, phase, stepsBefore, spec, hlast, hget, hnone, rfl⟩ := Pipeline.labelLast_eq_ok hq
  rw [h.lastPhase] at hlast
  obtain ⟨⟨phase', spec'⟩, hd, rfl⟩ := Option.map_eq_some_iff.1 hlast
  obtain ⟨before, hbefore⟩ := List.getLast?_eq_some_iff.1 hd
  -- The steps of its phase are those declared for it before, and the step declared last.
  rw [h.specs, hbefore, Declarations.inPhase_concat, if_pos rfl] at hget
  obtain ⟨rfl, hspec⟩ := List.append_inj' hget rfl
  obtain rfl : spec' = spec := List.singleton_inj.1 hspec
  refine ⟨before, phase', spec', hbefore, hnone, hl, Pipeline.coherent_of_unsealed hplan, fun ph => ?_, ?_,
    h.startLabel⟩
  · rw [Declarations.inPhase_concat]
    show (ByPhase.modify _ _ _).get ph = _
    split
    · rename_i heq
      rw [← heq, ByPhase.get_modify]
    · rename_i hne
      rw [ByPhase.get_modify_ne _ _ (Ne.symm hne), h.specs, hbefore, Declarations.inPhase_concat,
        if_neg hne]
  · show c.pipeline.lastPhase = _
    rw [h.lastPhase, hbefore]
    simp

theorem Kept.accepted (h : c.Kept) {x : Change ω ι C} {q : Pipeline ω ι C}
    (hq : c.pipeline.apply x = .ok q) : Kept ⟨q, x.declare c.declared, c.asked⟩ := by
  rcases x with ⟨phase, spec⟩ | x
  · exact h.add hq
  · by_cases hx : ∃ label, x = .labelLast label
    · obtain ⟨label, rfl⟩ := hx
      obtain ⟨before, phase, spec, hd, -, hkept⟩ := h.labelLast hq
      have hdeclare : (Change.set (.labelLast label)).declare c.declared =
          before ++ [(phase, spec.withLabel label)] := by
        rw [hd]
        exact List.modifyLast_concat _ _ _
      rw [hdeclare]
      exact hkept
    · have hx' : ∀ label, x ≠ .labelLast label := fun label heq => hx ⟨label, heq⟩
      obtain ⟨-, hplan, hs, hl, hlast, hstart⟩ := Pipeline.set_eq_ok hx' hq
      have hdeclare : (Change.set x).declare c.declared = c.declared := by
        cases x with
        | labelLast label => exact absurd rfl (hx' label)
        | _ => rfl
      rw [hdeclare]
      exact h.congr hs hl hlast (Pipeline.coherent_of_unsealed hplan) (hstart.trans h.startLabel)

/-- Sealing adds the plan. -/
theorem Kept.sealed (h : c.Kept) {s s' : Store ω ι} {plan : Plan ω ι C} {q : Pipeline ω ι C}
    (hq : c.pipeline.sealPlan s = (.ok (plan, q), s')) : Kept ⟨q, c.declared, c.asked⟩ := by
  have hc := h.coherent.sealPlan hq
  obtain ⟨rfl, -⟩ := Pipeline.sealPlan_eq_ok h.coherent hq
  exact h.congr rfl rfl rfl hc h.startLabel

theorem Kept.call (h : c.Kept) (k : Pipeline.Call ω ι C) : (c.call k).Kept := by
  cases k with
  | change x =>
    cases hx : c.pipeline.apply x with
    | ok q =>
      have hcall : c.call (.change x) = ⟨q, x.declare c.declared, c.asked⟩ := by
        simp only [Career.call, Pipeline.after, Pipeline.edit_eq_ok.2 hx]
      rw [hcall]
      exact h.accepted hx
    | error e =>
      have hcall : c.call (.change x) = c := by
        simp only [Career.call, Pipeline.after, Pipeline.edit_eq, hx, Pipeline.inPlace]
      rw [hcall]
      exact h
  | fork => exact h.congr rfl rfl rfl (Pipeline.coherent_of_unsealed rfl) rfl
  | jumpTo label => exact h.congr rfl rfl rfl h.coherent (List.getLast?_concat ..).symm
  | sealPlan s =>
    rcases hs : c.pipeline.sealPlan s with ⟨e | ⟨plan, q⟩, s'⟩
    · have hcall : c.call (.sealPlan s) = c := by simp only [Career.call, Pipeline.after, hs]
      rw [hcall]
      exact h
    · have hcall : c.call (.sealPlan s) = ⟨q, c.declared, c.asked⟩ := by
        simp only [Career.call, Pipeline.after, hs]
      rw [hcall]
      exact h.sealed hs
  | execute out input s =>
    rcases hs : c.pipeline.sealPlan s with ⟨e | ⟨plan, q⟩, s'⟩
    · have hcall : c.call (.execute out input s) = c := by
        simp only [Career.call, Pipeline.after, hs, Pipeline.execute_of_error out input hs]
      rw [hcall]
      exact h
    · have hcall : c.call (.execute out input s) = ⟨{ q with startLabel := none }, c.declared, []⟩ := by
        simp only [Career.call, Pipeline.after, hs, (Pipeline.runs_of_sealPlan out input hs).2.2]
      rw [hcall]
      have hq := h.sealed hs
      exact hq.congr rfl rfl rfl hq.coherent rfl

theorem kept_run (name : String) (config : Option EngineConfig) (calls : List (Pipeline.Call ω ι C)) :
    ((start name config).run calls).Kept :=
  run_keeps (fun _ k h => h.call k) (kept_start name config) calls

end Career
end Pipeworks
