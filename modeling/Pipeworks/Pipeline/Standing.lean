import Pipeworks.Pipeline.Unpooled
/-!
# Pipelines that stand for others

A pipeline without pools can be sealed anew for every run: its plan depends neither on the store nor on a
cache (`Likens.execute`). A pipeline that stands for another one, bound through a cache or not, sealed or
not, therefore runs as that one does without its pools, built for the run (`Stands.execute`).
-/

namespace Pipeworks

namespace Definition
variable {ω ι C : Type} [Host ω] [LocalAction ω ι C]

theorem bindStep_poolless (phase : Phase) (n : Nat) {spec : StepSpec ω ι C}
    (h : spec.manager.pooled? = none) :
    ∃ step, ∀ site s, bindStep site phase n spec s = (.ok step, s) := by
  obtain ⟨m, label, expected⟩ := spec
  cases m with
  | shared a => exact ⟨_, fun _ _ => rfl⟩
  | perRun f => exact ⟨_, fun _ _ => rfl⟩
  | pooled f max => cases h

theorem bindPhase_poolless (name : String) (phase : Phase) (n : Nat) (taken : List String)
    {specs : List (StepSpec ω ι C)} (h : ∀ spec ∈ specs, spec.manager.pooled? = none) :
    ∃ r, ∀ site s, site.pipeline = name → bindPhase site phase n taken specs s = (r, s) := by
  induction specs generalizing n taken with
  | nil => exact ⟨_, fun _ _ _ => rfl⟩
  | cons spec specs ih =>
    obtain ⟨hspec, hspecs⟩ := List.forall_mem_cons.1 h
    obtain ⟨step, hstep⟩ := bindStep_poolless phase n hspec
    obtain ⟨r, hr⟩ := ih (n + 1) (spec.label.toList ++ taken) hspecs
    cases hlabel : spec.label.filter taken.contains with
    | some label =>
      refine ⟨.error (.error (.duplicateLabel name label)), fun site s hsite => ?_⟩
      simp only [bindPhase, hlabel, hsite]
    | none =>
      cases r with
      | error e =>
        refine ⟨.error e, fun site s hsite => ?_⟩
        simp only [bindPhase, hlabel, hstep, hr site s hsite]
      | ok rest =>
        refine ⟨.ok (step :: rest.1, rest.2), fun site s hsite => ?_⟩
        simp only [bindPhase, hlabel, hstep, hr site s hsite]

/-- Steps without pools are bound alike in every store, through whatever cache. -/
theorem bind_poolless (name : String) (policy : ErrorPolicy) (handler : Option (ErrorHandler C))
    {specs : ByPhase (List (StepSpec ω ι C))} (h : ∀ spec ∈ specs.flat, spec.manager.pooled? = none) :
    ∃ r, ∀ site s, site.pipeline = name → bind site policy handler specs s = (r, s) := by
  obtain ⟨h, hpost⟩ := List.forall_mem_append.1 h
  obtain ⟨hpre, hmain⟩ := List.forall_mem_append.1 h
  obtain ⟨pre, hpre⟩ := bindPhase_poolless name .pre 0 [] hpre
  cases pre with
  | error e =>
    refine ⟨.error e, fun site s hsite => ?_⟩
    simp only [bind, hpre site s hsite]
  | ok pre =>
    obtain ⟨main, hmain⟩ := bindPhase_poolless name .main 0 pre.2 hmain
    cases main with
    | error e =>
      refine ⟨.error e, fun site s hsite => ?_⟩
      simp only [bind, hpre site s hsite, hmain site s hsite]
    | ok main =>
      obtain ⟨post, hpost⟩ := bindPhase_poolless name .post 0 main.2 hpost
      cases post with
      | error e =>
        refine ⟨.error e, fun site s hsite => ?_⟩
        simp only [bind, hpre site s hsite, hmain site s hsite, hpost site s hsite]
      | ok post =>
        refine ⟨.ok ⟨name, policy, handler, ⟨pre.1, main.1, post.1⟩⟩, fun site s hsite => ?_⟩
        simp only [bind, hpre site s hsite, hmain site s hsite, hpost site s hsite, hsite]

end Definition

namespace Pipeline
variable {ω ι C : Type}

theorem pooled?_unpooled (m : Manager ω ι C) : m.unpooled.pooled? = none := by
  cases m <;> rfl

theorem poolless_unpooled (p : Pipeline ω ι C) :
    ∀ spec ∈ p.unpooled.specs.flat, spec.manager.pooled? = none := by
  intro spec hspec
  have hmap : p.unpooled.specs.flat = p.specs.flat.map (·.unpooled) := by
    simp only [unpooled, ByPhase.flat, List.map_append]
  rw [hmap] at hspec
  obtain ⟨spec, -, rfl⟩ := List.mem_map.1 hspec
  exact pooled?_unpooled spec.manager

variable [Host ω] [LocalAction ω ι C] {p p' q : Pipeline ω ι C}

theorem execute_settings (h : p.startLabel = none) (out : Option (Marker C)) (input : C) (s : Store ω ι) :
    ∃ plan, (p.execute out input s).2.1 = { p with plan := plan } := by
  unfold execute sealPlan
  split
  · exact ⟨p.plan, rfl⟩
  · exact ⟨p.plan, rfl⟩
  · rename_i plan q t hseal
    split at hseal
    · cases hseal
      exact ⟨p.plan, by rw [← h]⟩
    · split at hseal
      · cases hseal
      · cases hseal
        exact ⟨_, by rw [← h]⟩

/-- The second pipeline is the first one with a cache perhaps, and perhaps sealed, with the plan that the
first one is sealed with in every store. -/
def Likens (p p' : Pipeline ω ι C) : Prop :=
  ∃ cache plan, p' = { p with cache := cache, plan := plan } ∧ ∀ x, plan = some x →
    ∃ d, x = .ofDefinition d ∧
      ∀ site s, site.pipeline = p.name → Definition.bind site p.policy p.handler p.specs s = (.ok d, s)

/-- Without pools both run alike, and stay so. -/
theorem Likens.execute (h : p.Likens p') (hpool : ∀ spec ∈ p.specs.flat, spec.manager.pooled? = none)
    (hplan : p.plan = none) (hstart : p.startLabel = none) (input : C) (s : Store ω ι) :
    let r := p'.execute none input s
    let r' := p.execute none input s
    (r.1, r.2.2) = (r'.1, r'.2.2) ∧ p.Likens r.2.1 := by
  obtain ⟨cache, plan, rfl, hd⟩ := h
  obtain ⟨r, hr⟩ := Definition.bind_poolless p.name p.policy p.handler hpool
  cases r with
  | error e =>
    cases plan with
    | some x =>
      obtain ⟨d, -, hbind⟩ := hd x rfl
      cases (hr p.site s rfl).symm.trans (hbind p.site s rfl)
    | none =>
      have hseal := sealPlan_of_error (p := { p with cache := cache, plan := none }) rfl (hr _ s rfl)
      have hseal' := sealPlan_of_error hplan (hr _ s rfl)
      cases e with
      | error e | panicked text =>
        simp only [Pipeline.execute, hseal, hseal', true_and]
        refine ⟨cache, none, rfl, fun x hx => ?_⟩
        cases hx
  | ok d =>
    have hseal : sealPlan { p with cache := cache, plan := plan } s =
        (.ok (.ofDefinition d, { p with cache := cache, plan := some (.ofDefinition d) }), s) := by
      cases plan with
      | none => exact sealPlan_of_bind rfl (hr _ s rfl)
      | some x =>
        obtain ⟨d', rfl, hbind⟩ := hd x rfl
        cases (hr p.site s rfl).symm.trans (hbind p.site s rfl)
        rfl
    have hseal' := sealPlan_of_bind hplan (hr _ s rfl)
    simp only [Pipeline.execute, hseal, hseal']
    refine ⟨rfl, cache, some (.ofDefinition d), by rw [← hstart], fun x hx => ?_⟩
    cases hx
    exact ⟨d, rfl, hr⟩

end Pipeline

namespace Blur
variable {ω ι C : Type} [Host ω] [LocalAction ω ι C] {B : Blur ω} {s s' t : Store ω ι}
variable {p q : Pipeline ω ι C} {cache : Option CacheId}

/-- The second pipeline is the first one with a cache, sealed or not, and its cache has pools for it. -/
structure Stands (B : Blur ω) (s : Store ω ι) (p : Pipeline ω ι C) (cache : Option CacheId)
    (q : Pipeline ω ι C) : Prop where
  same : ∃ plan, q = { p with cache := cache, plan := plan }
  fits : B.Fits s q
  twin : ∃ q', B.Coupled s q q' ∧ p.unpooled.Likens q'

theorem stands_new (hplan : p.plan = none) (h : B.Fits s { p with cache := cache }) :
    B.Stands s p cache { p with cache := cache } where
  same := ⟨p.plan, rfl⟩
  fits := h
  twin := ⟨_, .inl ⟨hplan, rfl⟩, cache, p.plan, rfl, fun _ hx => nomatch hplan.symm.trans hx⟩

theorem Stands.fits_base (h : B.Stands s p cache q) : B.Fits s { p with cache := cache } := by
  obtain ⟨plan, rfl⟩ := h.same
  exact h.fits.with p.plan p.startLabel

/-- A pipeline that stands for another one runs as that one does without its pools. -/
theorem Stands.execute (h : B.Stands s p cache q) (hplan : p.plan = none) (hstart : p.startLabel = none)
    (hw : B.world s.world s'.world) (input : C) :
    let r := q.execute none input s
    let r' := p.unpooled.execute none input s'
    B.Ends s B.LikeResult (r.1, r.2.2) (r'.1, r'.2.2) ∧
      ((∃ held, r.1 = .blocked held) ∨ B.Stands r.2.2 p cache r.2.1) := by
  intro r r'
  obtain ⟨q', hcoupled, hlikens⟩ := h.twin
  obtain ⟨hends, hnext⟩ := hcoupled.execute h.fits hw input
  obtain ⟨hsame, hlikens'⟩ := hlikens.execute p.poolless_unpooled hplan hstart input s'
  rw [hsame] at hends
  refine ⟨hends, hnext.imp_right fun ⟨hcoupled, hfits⟩ => ⟨?_, hfits, _, hcoupled, hlikens'⟩⟩
  obtain ⟨plan, rfl⟩ := h.same
  exact Pipeline.execute_settings (p := { p with cache := cache, plan := plan }) hstart none input s

end Blur
end Pipeworks
