import Pipeworks.Pipeline.Binding
import Pipeworks.Run.Effects
import Pipeworks.Run.Twins
/-!
# Pipelines without pools

The same pipeline with instances made for each call in place of pools. Where instances start over, sealing
both gives twin plans (`Coupled.sealPlan`), and a run of both comes to the same end and leaves them as they
were coupled (`Coupled.execute`).
-/

namespace Pipeworks

/-- Makes an instance for each call instead of pooling them. -/
def Manager.unpooled {ω ι C : Type} : Manager ω ι C → Manager ω ι C
  | pooled f _ => perRun f
  | m => m

/-- The factory of the instances that are pooled. -/
def Manager.pooled? {ω ι C : Type} : Manager ω ι C → Option (LocalFactory ω ι)
  | pooled f _ => some f
  | shared _ | perRun _ => none

def StepSpec.unpooled {ω ι C : Type} (spec : StepSpec ω ι C) : StepSpec ω ι C :=
  { spec with manager := spec.manager.unpooled }

def Pipeline.unpooled {ω ι C : Type} (p : Pipeline ω ι C) : Pipeline ω ι C :=
  { p with specs := ⟨p.specs.pre.map (·.unpooled), p.specs.main.map (·.unpooled),
      p.specs.post.map (·.unpooled)⟩ }

/-- The factory of the instances that a pipeline pools under a key. -/
def Pipeline.pooledUnder {ω ι C : Type} (p : Pipeline ω ι C) (key : CacheKey) :
    Option (LocalFactory ω ι) :=
  if key.pipeline = p.name then
    (p.specs.get key.phase)[key.index]?.bind fun spec =>
      if spec.label = key.name then spec.manager.pooled? else none
  else none

/-- The factories of the pooled steps of a phase, from an index on, are declared for their keys. -/
def Registers {ω ι C : Type} (D : CacheKey → Option (LocalFactory ω ι)) (site : Definition.Site)
    (phase : Phase) (n : Nat) (specs : List (StepSpec ω ι C)) : Prop :=
  ∀ i spec f, specs[i]? = some spec → spec.manager.pooled? = some f →
    D (site.at phase (n + i) spec.label).cacheKey = some f

theorem Pipeline.registers {ω ι C : Type} (p : Pipeline ω ι C) (phase : Phase) :
    Registers p.pooledUnder p.site phase 0 (p.specs.get phase) := by
  intro i spec f hspec hf
  show (if p.name = p.name then _ else _) = _
  rw [if_pos rfl]
  show (p.specs.get phase)[0 + i]?.bind _ = _
  rw [Nat.zero_add, hspec, Option.bind_some]
  exact (if_pos rfl).trans hf

theorem Registers.head {ω ι C : Type} {D : CacheKey → Option (LocalFactory ω ι)}
    {site : Definition.Site} {phase : Phase} {n : Nat} {spec : StepSpec ω ι C}
    {specs : List (StepSpec ω ι C)} (h : Registers D site phase n (spec :: specs))
    {f : LocalFactory ω ι} (hf : spec.manager.pooled? = some f) :
    D (site.at phase n spec.label).cacheKey = some f :=
  h 0 spec f rfl hf

theorem Registers.tail {ω ι C : Type} {D : CacheKey → Option (LocalFactory ω ι)}
    {site : Definition.Site} {phase : Phase} {n : Nat} {spec : StepSpec ω ι C}
    {specs : List (StepSpec ω ι C)} (h : Registers D site phase n (spec :: specs)) :
    Registers D site phase (n + 1) specs := by
  intro i spec' f hspec hf
  rw [Nat.add_assoc, Nat.add_comm 1]
  exact h (i + 1) spec' f hspec hf

namespace Blur
variable {ω ι C : Type} [Host ω] [LocalAction ω ι C]

/-- The step applies a shared action that respects the blur, or instances that start over. -/
def Admits (B : Blur ω) (spec : StepSpec ω ι C) : Prop :=
  match spec.manager with
  | .shared a => B.Respects a.apply
  | .perRun f => ∃ i, B.Renews C f i
  | .pooled f _ => ∃ i, B.Renews C f i

variable {B : Blur ω} {s s' t : Store ω ι} {site : Definition.Site}
variable {D : CacheKey → Option (LocalFactory ω ι)}

/-! ### Binding -/

theorem bindStep_unpooled (ht : B.Tended C s site.cache D) (phase : Phase) (n : Nat)
    {spec : StepSpec ω ι C}
    (hD : ∀ f, spec.manager.pooled? = some f → D (site.at phase n spec.label).cacheKey = some f)
    (h : B.Admits spec) (hw : B.world s.world s'.world) :
    ∃ step step' t t', Definition.bindStep site phase n spec s = (.ok step, t) ∧
      Definition.bindStep site phase n spec.unpooled s' = (.ok step', t') ∧ B.TwinStep t step step' ∧
      B.Beside C s t t' ∧ B.Tended C t site.cache D := by
  obtain ⟨m, label, expected⟩ := spec
  cases m with
  | shared a =>
    exact ⟨_, _, s, s', rfl, rfl, ⟨rfl, rfl, rfl, rfl, rfl, .shared h⟩, ⟨hw, .refl s⟩, ht⟩
  | perRun f =>
    obtain ⟨i, hf⟩ := h
    exact ⟨_, _, s, s', rfl, rfl, ⟨rfl, rfl, rfl, rfl, rfl, .perRun hf⟩, ⟨hw, .refl s⟩, ht⟩
  | pooled f max =>
    obtain ⟨i, hf⟩ := h
    have ht' : B.Tended C s (site.at phase n label).cache D := ht
    obtain ⟨id, style, t, hbind, htw, hserves, hk, ht⟩ := hf.bindPooled ht' (hD f rfl) max
    refine ⟨⟨phase, n, label, phase.stepName n label, .pooled id style, expected⟩, _, t, s', ?_, rfl,
      ⟨rfl, rfl, rfl, rfl, rfl, .pooled style hserves⟩, ⟨?_, hk⟩, ht⟩
    · simp only [Definition.bindStep, Manager.bind, hbind]
    · rw [htw]
      exact hf.making.left hw

/-- Binding fails with the same error, or gives twins and the same labels. -/
theorem bindPhase_unpooled (ht : B.Tended C s site.cache D) (phase : Phase) (n : Nat)
    (taken : List String) {specs : List (StepSpec ω ι C)} (hD : Registers D site phase n specs)
    (h : ∀ spec ∈ specs, B.Admits spec) (hw : B.world s.world s'.world) :
    B.Yields C s (fun t r r' => List.Forall₂ (B.TwinStep t) r.1 r'.1 ∧ r.2 = r'.2)
      (Definition.bindPhase site phase n taken specs s)
      (Definition.bindPhase site phase n taken (specs.map (·.unpooled)) s') ∧
    B.Tended C (Definition.bindPhase site phase n taken specs s).2 site.cache D := by
  induction specs generalizing n taken s s' with
  | nil => exact ⟨.ok ⟨.nil, rfl⟩ ⟨hw, .refl s⟩, ht⟩
  | cons spec specs ih =>
    obtain ⟨hspec, hspecs⟩ := List.forall_mem_cons.1 h
    have hlabel : spec.unpooled.label = spec.label := rfl
    rw [List.map_cons, Definition.bindPhase, Definition.bindPhase, hlabel]
    split
    · exact ⟨.error _ ⟨hw, .refl s⟩, ht⟩
    · obtain ⟨step, step', t, t', hb, hb', htwin, hbt, ht⟩ :=
        bindStep_unpooled ht phase n (fun f => hD.head) hspec hw
      simp only [hb, hb']
      obtain ⟨hrest, ht⟩ := ih ht (n + 1) (spec.label.toList ++ taken) hD.tail hspecs hbt.world
      generalize Definition.bindPhase site phase _ _ specs t = r at hrest ht ⊢
      generalize Definition.bindPhase site phase _ _ (specs.map (·.unpooled)) t' = r' at hrest ⊢
      cases hrest with
      | error e hbu => exact ⟨.error e (hbt.trans hbu), ht⟩
      | ok htwins hbu => exact ⟨.ok ⟨.cons (htwin.mono hbu.kept) htwins.1, htwins.2⟩ (hbt.trans hbu), ht⟩

theorem labelsFrom_congr {steps steps' : List (BoundStep ω ι C)}
    (h : List.Forall₂ (B.TwinStep s) steps steps') (n : Nat) :
    Plan.labelsFrom n steps = Plan.labelsFrom n steps' := by
  induction h generalizing n with
  | nil => rfl
  | cons hstep hsteps ih => rw [Plan.labelsFrom, Plan.labelsFrom, hstep.label, ih]

theorem twinPlan_ofDefinition {d d' : Definition ω ι C} (hname : d.name = d'.name)
    (hpolicy : d.policy = d'.policy) (hhandler : d.handler = d'.handler)
    (hpre : List.Forall₂ (B.TwinStep s) d.steps.pre d'.steps.pre)
    (hmain : List.Forall₂ (B.TwinStep s) d.steps.main d'.steps.main)
    (hpost : List.Forall₂ (B.TwinStep s) d.steps.post d'.steps.post) :
    B.TwinPlan s (.ofDefinition d) (.ofDefinition d') where
  name := hname
  policy := hpolicy
  handler := hhandler
  labels := labelsFrom_congr (List.rel_append (List.rel_append hpre hmain) hpost) 0
  pre := hpre
  main := hmain
  post := hpost

theorem bind_unpooled (ht : B.Tended C s site.cache D) (policy : ErrorPolicy)
    (handler : Option (ErrorHandler C)) {specs : ByPhase (List (StepSpec ω ι C))}
    (hD : ∀ phase, Registers D site phase 0 (specs.get phase)) (h : ∀ spec ∈ specs.flat, B.Admits spec)
    (hw : B.world s.world s'.world) :
    B.Yields C s (fun t d d' => B.TwinPlan t (.ofDefinition d) (.ofDefinition d'))
      (Definition.bind site policy handler specs s)
      (Definition.bind site policy handler ⟨specs.pre.map (·.unpooled), specs.main.map (·.unpooled),
        specs.post.map (·.unpooled)⟩ s') ∧
    B.Tended C (Definition.bind site policy handler specs s).2 site.cache D := by
  obtain ⟨h, hpost⟩ := List.forall_mem_append.1 h
  obtain ⟨hpre, hmain⟩ := List.forall_mem_append.1 h
  unfold Definition.bind
  obtain ⟨hpres, ht⟩ := bindPhase_unpooled ht .pre 0 [] (hD .pre) hpre hw
  rw [ByPhase.get] at hpres ht
  generalize Definition.bindPhase site .pre 0 [] specs.pre s = r at hpres ht ⊢
  generalize Definition.bindPhase site .pre 0 [] (specs.pre.map (·.unpooled)) s' = r' at hpres ⊢
  cases hpres with
  | error e hbt => exact ⟨.error e hbt, ht⟩
  | @ok r r' t t' hpres hbt =>
    obtain ⟨pre, l⟩ := r
    obtain ⟨pre', l'⟩ := r'
    obtain ⟨hpres, rfl⟩ : List.Forall₂ (B.TwinStep t) pre pre' ∧ l = l' := hpres
    obtain ⟨hmains, ht⟩ := bindPhase_unpooled ht .main 0 l (hD .main) hmain hbt.world
    rw [ByPhase.get] at hmains ht
    simp only
    generalize Definition.bindPhase site .main 0 l specs.main t = r at hmains ht ⊢
    generalize Definition.bindPhase site .main 0 l (specs.main.map (·.unpooled)) t' = r' at hmains ⊢
    cases hmains with
    | error e hbu => exact ⟨.error e (hbt.trans hbu), ht⟩
    | @ok r r' u u' hmains hbu =>
      obtain ⟨main, l⟩ := r
      obtain ⟨main', l'⟩ := r'
      obtain ⟨hmains, rfl⟩ : List.Forall₂ (B.TwinStep u) main main' ∧ l = l' := hmains
      obtain ⟨hposts, ht⟩ := bindPhase_unpooled ht .post 0 l (hD .post) hpost hbu.world
      rw [ByPhase.get] at hposts ht
      simp only
      generalize Definition.bindPhase site .post 0 l specs.post u = r at hposts ht ⊢
      generalize Definition.bindPhase site .post 0 l (specs.post.map (·.unpooled)) u' = r' at hposts ⊢
      cases hposts with
      | error e hbv => exact ⟨.error e ((hbt.trans hbu).trans hbv), ht⟩
      | ok hposts hbv =>
        -- The pools of a phase rest while the next ones are bound.
        have hpres := hpres.imp fun _ _ h => (h.mono hbu.kept).mono hbv.kept
        have hmains := hmains.imp fun _ _ h => h.mono hbv.kept
        exact ⟨.ok (twinPlan_ofDefinition rfl rfl rfl hpres hmains hposts.1)
          ((hbt.trans hbu).trans hbv), ht⟩

/-! ### Runs -/

/-- What the runs of a pipeline touch respects the blur, and its pools are its own. -/
structure Suits (B : Blur ω) (p : Pipeline ω ι C) : Prop where
  cache : p.cache = none
  steps : ∀ spec ∈ p.specs.flat, B.Admits spec
  sink : B.RespectsSink p.sink
  sleeper : B.RespectsSleeper p.sleeper

/-- What the runs of a pipeline touch respects the blur, and so do the pools that its cache has for it. -/
structure Fits (B : Blur ω) (s : Store ω ι) (p : Pipeline ω ι C) : Prop where
  tended : B.Tended C s p.cache p.pooledUnder
  steps : ∀ spec ∈ p.specs.flat, B.Admits spec
  sink : B.RespectsSink p.sink
  sleeper : B.RespectsSleeper p.sleeper

/-- The second pipeline is the first one without pools, and is sealed with it. -/
def Coupled (B : Blur ω) (s : Store ω ι) (p p' : Pipeline ω ι C) : Prop :=
  (p.plan = none ∧ p' = p.unpooled) ∨
    ∃ plan plan', p.plan = some plan ∧ p' = { p.unpooled with plan := some plan' } ∧ B.TwinPlan s plan plan'

variable {p p' q q' : Pipeline ω ι C}

theorem Suits.fits (h : B.Suits p) (s : Store ω ι) : B.Fits s p := by
  refine ⟨?_, h.steps, h.sink, h.sleeper⟩
  rw [h.cache]
  exact tended_none

theorem Fits.mono (h : B.Fits s p) (hk : B.Keeps C s t) (hc : t.caches = s.caches) : B.Fits t p :=
  ⟨h.tended.mono hk hc, h.steps, h.sink, h.sleeper⟩

/-- Nothing hangs on the plan or on the start label. -/
theorem Fits.with (h : B.Fits s p) (plan : Option (Plan ω ι C)) (start : Option String) :
    B.Fits s { p with plan := plan, startLabel := start } :=
  ⟨h.tended, h.steps, h.sink, h.sleeper⟩

theorem Coupled.mono (h : B.Coupled s p p') (hk : B.Keeps C s t) : B.Coupled t p p' :=
  h.imp_right fun ⟨plan, plan', hp, hp', ht⟩ => ⟨plan, plan', hp, hp', ht.mono hk⟩

theorem Coupled.start (h : B.Coupled s p p') (start : Option String) :
    B.Coupled s { p with startLabel := start } { p' with startLabel := start } := by
  rcases h with ⟨hp, rfl⟩ | ⟨plan, plan', hp, rfl, ht⟩
  · exact .inl ⟨hp, rfl⟩
  · exact .inr ⟨plan, plan', hp, rfl, ht⟩

/-- Both are sealed with twin plans, or fail alike and stay as they are. -/
theorem Coupled.sealPlan (h : B.Coupled s p p') (hp : B.Fits s p) (hw : B.world s.world s'.world) :
    B.Yields C s (fun t r r' => r.2 = { p with plan := some r.1 } ∧
      r'.2 = { p.unpooled with plan := some r'.1 } ∧ B.TwinPlan t r.1 r'.1)
      (p.sealPlan s) (p'.sealPlan s') ∧ B.Fits (p.sealPlan s).2 p := by
  rcases h with ⟨hplan, rfl⟩ | ⟨plan, plan', hplan, rfl, ht⟩
  · have hplan' : p.unpooled.plan = none := hplan
    have htended : B.Tended C s p.site.cache p.pooledUnder := hp.tended
    obtain ⟨hbind, htended⟩ := bind_unpooled htended p.policy p.handler p.registers hp.steps hw
    rcases hb : Definition.bind p.site p.policy p.handler p.specs s with ⟨r, t⟩
    rcases hb' : Definition.bind p.unpooled.site p.policy p.handler p.unpooled.specs s' with ⟨r', t'⟩
    rw [hb] at hbind htended
    have hfits : B.Fits t p := ⟨htended, hp.steps, hp.sink, hp.sleeper⟩
    change B.Yields C s _ (r, t) (Definition.bind p.unpooled.site p.policy p.handler p.unpooled.specs s')
      at hbind
    rw [hb'] at hbind
    cases hbind with
    | error e hbt =>
      rw [Pipeline.sealPlan_of_error hplan hb, Pipeline.sealPlan_of_error hplan' hb']
      exact ⟨.error e hbt, hfits⟩
    | ok ht hbt =>
      rw [Pipeline.sealPlan_of_bind hplan hb, Pipeline.sealPlan_of_bind hplan' hb']
      exact ⟨.ok ⟨rfl, rfl, ht⟩ hbt, hfits⟩
  · rw [Pipeline.sealPlan_of_plan hplan s, Pipeline.sealPlan_of_plan rfl s']
    refine ⟨.ok ⟨?_, rfl, ht⟩ ⟨hw, .refl s⟩, hp⟩
    simp only [← hplan]

theorem Fits.twins {plan plan' : Plan ω ι C} (hp : B.Fits t p) (ht : B.TwinPlan s plan plan') :
    B.Twins s (p.executor plan none) (p.unpooled.executor plan' none) := by
  show B.Twins s (if p.jumpsEnabled || p.startLabel.isSome || false then _ else _)
    (if p.jumpsEnabled || p.startLabel.isSome || false then _ else _)
  split
  · refine ⟨ht, rfl, hp.sink, rfl, fun m sleeper h => ?_, rfl⟩
    cases h
    exact hp.sleeper
  · exact ⟨ht, rfl, hp.sink, rfl, fun m sleeper h => (by cases h), rfl⟩

/-- A run of both comes to the same end. Unless it is blocked, both are coupled behind it, and the cache has
pools for them. -/
theorem Coupled.execute (h : B.Coupled s p p') (hp : B.Fits s p) (hw : B.world s.world s'.world)
    (input : C) :
    let r := p.execute none input s
    let r' := p'.execute none input s'
    B.Ends s B.LikeResult (r.1, r.2.2) (r'.1, r'.2.2) ∧
      ((∃ held, r.1 = .blocked held) ∨ (B.Coupled r.2.2 r.2.1 r'.2.1 ∧ B.Fits r.2.2 r.2.1)) := by
  intro r r'
  obtain ⟨hseal, hfits⟩ := h.sealPlan hp hw
  rcases hs : p.sealPlan s with ⟨x, t⟩
  rcases hs' : p'.sealPlan s' with ⟨x', t'⟩
  rw [hs, hs'] at hseal
  rw [hs] at hfits
  cases hseal with
  | error e hbt =>
    have hcoupled := h.mono hbt.kept
    cases e with
    | error e =>
      have hr : r = (.failed (.configuration e), p, t) := by simp only [r, Pipeline.execute, hs]
      have hr' : r' = (.failed (.configuration e), p', t') := by simp only [r', Pipeline.execute, hs']
      rw [hr, hr']
      exact ⟨.failed _ hbt, .inr ⟨hcoupled, hfits⟩⟩
    | panicked text =>
      have hr : r = (.panicked text, p, t) := by simp only [r, Pipeline.execute, hs]
      have hr' : r' = (.panicked text, p', t') := by simp only [r', Pipeline.execute, hs']
      rw [hr, hr']
      exact ⟨.panicked _ hbt, .inr ⟨hcoupled, hfits⟩⟩
  | @ok a a' _ _ hsealed hbt =>
    obtain ⟨plan, q⟩ := a
    obtain ⟨plan', q'⟩ := a'
    obtain ⟨rfl, rfl, ht⟩ : q = { p with plan := some plan } ∧
      q' = { p.unpooled with plan := some plan' } ∧ B.TwinPlan t plan plan' := hsealed
    have hends := (hfits.twins ht).execute p.startLabel input ⟨hbt.world, .refl t⟩
    have hcaches := (p.executor plan none).caches_execute p.startLabel input t
    let e := (p.executor plan none).execute p.startLabel input t
    let e' := (p.unpooled.executor plan' none).execute p.startLabel input t'
    let q : Pipeline ω ι C := { p with startLabel := none, plan := some plan }
    have hr : r = (e.1, q, e.2) := by
      simp only [r, Pipeline.execute, hs]
      rfl
    have hr' : r' = (e'.1, { q.unpooled with plan := some plan' }, e'.2) := by
      simp only [r', Pipeline.execute, hs']
      rfl
    rw [hr, hr']
    refine ⟨hends.of_keeps hbt.kept, ?_⟩
    rcases hends.beside with hheld | hbeside
    · exact .inl hheld
    · exact .inr ⟨.inr ⟨plan, plan', rfl, rfl, ht.mono hbeside.kept⟩,
        (hfits.mono hbeside.kept hcaches).with (some plan) none⟩

end Blur
end Pipeworks
