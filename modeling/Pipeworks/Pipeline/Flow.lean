import Pipeworks.Pipeline.Runs
import Pipeworks.Pipeline.Typed
/-!
# The types along a typed pipeline

The steps of a typed pipeline form a flow: each takes values of the type that the one before it gives.
`Built` says which pipelines come of the builder, and `Built.sound` that their phases are flows, pre at the
type of the input, main from there to the type of the output, and post at that. Such a pipeline can always
be sealed (`Built.sealPlan`), and the steps of its plan are a flow from the input to the output
(`Sound.flow_steps`).
-/

namespace Pipeworks

/-- Items that lead from a type to another one, each from the type that the one before it led to. -/
inductive Flow {α τ : Type} (R : τ → τ → α → Prop) : τ → List α → τ → Prop
  | nil (s : τ) : Flow R s [] s
  | cons {s m u : τ} {a : α} {l : List α} (h : R s m a) (hl : Flow R m l u) : Flow R s (a :: l) u

namespace Flow
variable {α β τ : Type} {R : τ → τ → α → Prop} {s m u : τ} {a : α} {l l' : List α}

theorem append (h : Flow R s l m) (h' : Flow R m l' u) : Flow R s (l ++ l') u := by
  induction h with
  | nil s => exact h'
  | cons ha hl ih => exact .cons ha (ih h')

theorem concat (h : Flow R s l m) (ha : R m u a) : Flow R s (l ++ [a]) u :=
  h.append (.cons ha (.nil u))

theorem forall_mem (h : Flow R s l u) : ∀ a ∈ l, ∃ m n, R m n a := by
  induction h with
  | nil s => exact fun a ha => (List.not_mem_nil ha).elim
  | cons ha hl ih => exact List.forall_mem_cons.2 ⟨⟨_, _, ha⟩, ih⟩

theorem transfer {R' : τ → τ → β → Prop} {P : α → β → Prop} {k : List β} (h : Flow R s l u)
    (hR : ∀ s m a b, R s m a → P a b → R' s m b) (hk : List.Forall₂ P l k) : Flow R' s k u := by
  induction h generalizing k with
  | nil s =>
    cases hk
    exact .nil s
  | cons ha hl ih =>
    cases hk with
    | cons hb hk => exact .cons (hR _ _ _ _ ha hb) (ih hk)

theorem of_nil (h : Flow R s [] u) : s = u := by
  cases h
  rfl

/-- The item at a position leads on from where the flow stands before it. -/
theorem getElem? {n : Nat} (h : Flow R s (l.drop n) u) (ha : l[n]? = some a) :
    ∃ m, R s m a ∧ Flow R m (l.drop (n + 1)) u := by
  obtain ⟨hn, rfl⟩ := List.getElem?_eq_some_iff.1 ha
  rw [List.drop_eq_getElem_cons hn] at h
  cases h with
  | cons ha hl => exact ⟨_, ha, hl⟩

/-- Where an item leads on from, the rest of the flow does. -/
theorem drop_of_getElem? {n : Nat} (h : Flow R s l u) (ha : l[n]? = some a) :
    ∃ m, (∃ k, R m k a) ∧ Flow R m (l.drop n) u := by
  induction n generalizing s l with
  | zero =>
    obtain ⟨k, hk, -⟩ := Flow.getElem? (n := 0) (l := l) (by rwa [List.drop_zero]) ha
    exact ⟨s, ⟨k, hk⟩, by rwa [List.drop_zero]⟩
  | succ n ih =>
    cases h with
    | nil s => cases ha
    | cons hb hl => exact ih hl ha

end Flow

namespace TypedPipeline
variable {ω ι τ : Type} [ValueTypes τ] [DecidableEq τ] {input output : τ}

/-- The same builder at another pipeline. -/
def onto (p : TypedPipeline ω ι input output) (r : Pipeline ω ι (Typed τ)) :
    TypedPipeline ω ι input output := { p with pipeline := r }

/-- The declaration of a step between two types. -/
def Declares (source target : τ) (spec : StepSpec ω ι (Typed τ)) : Prop :=
  ∃ (label : String) (f : TypedFunction ω source target), spec = TypedPipeline.spec label f

/-- A bound step between two types: it applies a function, and is marked with the type that this takes. -/
def Applies (source target : τ) (step : BoundStep ω ι (Typed τ)) : Prop :=
  step.expectedInput = some (Typed.marker source) ∧
    ∃ f : TypedFunction ω source target, step.action = .shared f.action

variable [Host ω] [LocalAction ω ι (Typed τ)]

theorem Declares.applies {source target : τ} {spec : StepSpec ω ι (Typed τ)}
    {step : BoundStep ω ι (Typed τ)} (h : Declares source target spec) (hb : spec.Binds step) :
    Applies source target step := by
  obtain ⟨label, f, rfl⟩ := h
  obtain ⟨site, s, s', hbind⟩ := hb.action
  exact ⟨hb.expectedInput, f, (Except.ok.inj (congrArg Prod.fst hbind)).symm⟩

/-- The pipelines that come of the builder. Steps are only added by `pre`, `step` and `post`; settings can
be changed in between, and the pipeline can be sealed, be run and be started at a label. -/
inductive Built : {output : τ} → TypedPipeline ω ι input output → Prop
  | new (name : String) : Built (.new name input)
  | pre {p q : TypedPipeline ω ι input input} (label : String) (f : TypedFunction ω input input)
    (hp : Built p) (h : p.pre label f = .ok q) : Built q
  | step {mid next : τ} {p : TypedPipeline ω ι input mid} {q : TypedPipeline ω ι input next}
    (label : String) (f : TypedFunction ω mid next) (hp : Built p) (h : p.step label f = .ok q) : Built q
  | post {mid : τ} {p q : TypedPipeline ω ι input mid} (label : String) (f : TypedFunction ω mid mid)
    (hp : Built p) (h : p.post label f = .ok q) : Built q
  | set {mid : τ} {p q : TypedPipeline ω ι input mid} (x : PipelineSetting ω (Typed τ)) (hp : Built p)
    (h : p.configure (·.set x) = .ok q) : Built q
  | fork {mid : τ} {p : TypedPipeline ω ι input mid} (hp : Built p) :
    Built (p.onto p.pipeline.fork)
  | sealed {mid : τ} {p : TypedPipeline ω ι input mid} {plan : Plan ω ι (Typed τ)}
    {q : Pipeline ω ι (Typed τ)} {s s' : Store ω ι} (hp : Built p)
    (h : p.pipeline.sealPlan s = (.ok (plan, q), s')) : Built (p.onto q)
  | jumpTo {mid : τ} {p : TypedPipeline ω ι input mid} (label : String) (hp : Built p) :
    Built (p.jumpTo label)
  | ran {mid : τ} {p : TypedPipeline ω ι input mid} (v : ValueTypes.Value input) (s : Store ω ι)
    (hp : Built p) : Built (p.execute v s).2.1

/-- The phases are flows, and what is remembered of them fits them. -/
structure Sound (p : TypedPipeline ω ι input output) : Prop where
  preFlow : Flow Declares input p.pipeline.specs.pre input
  mainFlow : Flow Declares input p.pipeline.specs.main output
  postFlow : Flow Declares output p.pipeline.specs.post output
  post_nil : p.phase ≠ .post → p.pipeline.specs.post = []
  labelled : p.pipeline.Labelled
  coherent : p.pipeline.Coherent

variable {p q : TypedPipeline ω ι input output}

/-- Changes that leave the steps and their labels alone. -/
theorem Sound.congr {r : Pipeline ω ι (Typed τ)} (h : p.Sound) (hs : r.specs = p.pipeline.specs)
    (hl : r.labels = p.pipeline.labels) (hc : r.Coherent) : (p.onto r).Sound where
  preFlow := by rw [onto, hs]; exact h.preFlow
  mainFlow := by rw [onto, hs]; exact h.mainFlow
  postFlow := by rw [onto, hs]; exact h.postFlow
  post_nil := by rw [onto, hs]; exact h.post_nil
  labelled := h.labelled.congr hs hl
  coherent := hc

theorem Sound.flow (h : p.Sound) : Flow Declares input p.pipeline.specs.flat output :=
  (h.preFlow.append h.mainFlow).append h.postFlow

theorem Sound.shared (h : p.Sound) : ∀ spec ∈ p.pipeline.specs.flat, ∃ a, spec.manager = .shared a := by
  intro spec hspec
  obtain ⟨s, t, label, f, rfl⟩ := h.flow.forall_mem spec hspec
  exact ⟨_, rfl⟩

theorem Sound.label_ne_none (h : p.Sound) : ∀ spec ∈ p.pipeline.specs.flat, spec.label ≠ none := by
  intro spec hspec hnone
  obtain ⟨s, t, label, f, rfl⟩ := h.flow.forall_mem spec hspec
  cases hnone

/-! ### What the builder keeps -/

omit [DecidableEq τ] [Host ω] [LocalAction ω ι (Typed τ)] in
theorem extend_eq_ok {mid : τ} {x : Except ConfigError (Pipeline ω ι (Typed τ))}
    {f : Pipeline ω ι (Typed τ) → TypedPipeline ω ι input mid} {q : TypedPipeline ω ι input mid}
    (h : (do pure (f (← x))) = Except.ok q) : ∃ r, x = .ok r ∧ q = f r := by
  cases x with
  | error e => cases h
  | ok r => exact ⟨r, rfl, (Except.ok.inj h).symm⟩

theorem sound_new (name : String) : (new name input : TypedPipeline ω ι input input).Sound where
  preFlow := .nil input
  mainFlow := .nil input
  postFlow := .nil input
  post_nil := fun _ => rfl
  labelled := Pipeline.labelled_new name
  coherent := Pipeline.coherent_of_unsealed rfl

theorem Sound.pre {p q : TypedPipeline ω ι input input} {label : String} {f : TypedFunction ω input input}
    (h : p.Sound) (hq : p.pre label f = .ok q) : q.Sound := by
  unfold TypedPipeline.pre at hq
  split at hq
  · obtain ⟨r, hr, rfl⟩ := extend_eq_ok hq
    have hlab := h.labelled.addStep hr
    obtain ⟨hplan, -, rfl⟩ := Pipeline.addStep_eq_ok hr
    exact ⟨h.preFlow.concat ⟨label, f, rfl⟩, h.mainFlow, h.postFlow, h.post_nil, hlab,
      Pipeline.coherent_of_unsealed hplan⟩
  · cases hq

theorem Sound.step {next : τ} {q : TypedPipeline ω ι input next} {label : String}
    {f : TypedFunction ω output next} (h : p.Sound) (hq : p.step label f = .ok q) : q.Sound := by
  unfold TypedPipeline.step at hq
  split at hq
  · cases hq
  · rename_i hphase
    obtain ⟨r, hr, rfl⟩ := extend_eq_ok hq
    have hlab := h.labelled.addStep hr
    obtain ⟨hplan, -, rfl⟩ := Pipeline.addStep_eq_ok hr
    have hpost := h.post_nil hphase
    refine ⟨h.preFlow, h.mainFlow.concat ⟨label, f, rfl⟩, ?_, fun _ => hpost, hlab,
      Pipeline.coherent_of_unsealed hplan⟩
    -- The type of the output may change since post is still empty.
    show Flow Declares next p.pipeline.specs.post next
    rw [hpost]
    exact .nil next

theorem Sound.post {label : String} {f : TypedFunction ω output output} (h : p.Sound)
    (hq : p.post label f = .ok q) : q.Sound := by
  unfold TypedPipeline.post at hq
  obtain ⟨r, hr, rfl⟩ := extend_eq_ok hq
  have hlab := h.labelled.addStep hr
  obtain ⟨hplan, -, rfl⟩ := Pipeline.addStep_eq_ok hr
  exact ⟨h.preFlow, h.mainFlow, h.postFlow.concat ⟨label, f, rfl⟩, fun hne => absurd rfl hne, hlab,
    Pipeline.coherent_of_unsealed hplan⟩

theorem Sound.set {x : PipelineSetting ω (Typed τ)} (h : p.Sound)
    (hq : p.configure (·.set x) = .ok q) : q.Sound := by
  unfold TypedPipeline.configure at hq
  obtain ⟨r, hr, rfl⟩ := extend_eq_ok hq
  have hx : ∀ label, x ≠ .labelLast label := by
    rintro label rfl
    obtain ⟨spec, hmem, hnone⟩ := Pipeline.unlabelled_of_labelLast hr
    exact h.label_ne_none spec hmem hnone
  obtain ⟨-, hplan, hspecs, hlabels, -, -⟩ := Pipeline.set_eq_ok hx hr
  exact h.congr hspecs hlabels (Pipeline.coherent_of_unsealed hplan)

theorem Sound.sealed {plan : Plan ω ι (Typed τ)} {r : Pipeline ω ι (Typed τ)} {s s' : Store ω ι}
    (h : p.Sound) (hr : p.pipeline.sealPlan s = (.ok (plan, r), s')) : (p.onto r).Sound := by
  have hc := h.coherent.sealPlan hr
  obtain ⟨rfl, -⟩ := Pipeline.sealPlan_eq_ok h.coherent hr
  exact h.congr rfl rfl hc

theorem Sound.ran (h : p.Sound) (v : ValueTypes.Value input) (s : Store ω ι) :
    (p.execute v s).2.1.Sound := by
  have hp : (p.execute v s).2.1 =
      p.onto (p.pipeline.execute (some (Typed.marker output)) ⟨input, v⟩ s).2.1 := rfl
  rw [hp]
  rcases p.pipeline.execute_pipeline (some (Typed.marker output)) ⟨input, v⟩ s with
    hq | ⟨plan, q, s', hseal, hq⟩
  · rw [hq]
    exact h
  · rw [hq]
    have hs := h.sealed hseal
    exact hs.congr (r := { q with startLabel := none }) rfl rfl hs.coherent

theorem Built.sound (h : p.Built) : p.Sound := by
  induction h with
  | new name => exact sound_new name
  | pre label f hp h ih => exact ih.pre h
  | step label f hp h ih => exact ih.step h
  | post label f hp h ih => exact ih.post h
  | set x hp h ih => exact ih.set h
  | fork hp ih => exact ih.congr rfl rfl (Pipeline.coherent_of_unsealed rfl)
  | sealed hp h ih => exact ih.sealed h
  | jumpTo label hp ih => exact ih.congr rfl rfl ih.coherent
  | ran v s hp ih => exact ih.ran v s

/-! ### The plan -/

theorem Sound.sealPlan (h : p.Sound) (s : Store ω ι) :
    ∃ plan q, p.pipeline.sealPlan s = (.ok (plan, q), s) :=
  Pipeline.sealPlan_shared h.labelled h.shared s

/-- The steps of the plan lead from the type of the input to the type of the output. -/
theorem Sound.flow_steps {plan : Plan ω ι (Typed τ)} {r : Pipeline ω ι (Typed τ)} {s s' : Store ω ι}
    (h : p.Sound) (hr : p.pipeline.sealPlan s = (.ok (plan, r), s')) :
    ∃ d, plan = .ofDefinition d ∧ d.name = p.pipeline.name ∧ d.policy = p.pipeline.policy ∧
      Flow Applies input d.steps.flat output := by
  obtain ⟨-, t, t', d, hbind, rfl⟩ := Pipeline.sealPlan_eq_ok h.coherent hr
  obtain ⟨hname, hpolicy, -, hsteps⟩ := Definition.bind_eq_ok hbind
  have hR : ∀ s m spec step, Declares (ω := ω) (ι := ι) s m spec → spec.Binds step →
      Applies (τ := τ) s m step := fun s m spec step hd hb => hd.applies hb
  have hpre := h.preFlow.transfer hR (hsteps .pre).binds
  have hmain := h.mainFlow.transfer hR (hsteps .main).binds
  have hpost := h.postFlow.transfer hR (hsteps .post).binds
  exact ⟨d, rfl, hname, hpolicy, (hpre.append hmain).append hpost⟩

end TypedPipeline
end Pipeworks
