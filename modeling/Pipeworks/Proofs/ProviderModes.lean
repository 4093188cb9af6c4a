import Pipeworks.Pipeline.Provider
import Pipeworks.Pipeline.Standing
import Pipeworks.Proofs.Pooling

/-!
# Modes of providers

`provider_modes_interchangeable`: where instances start over, nobody can tell from the answers of a provider
whether its runs share a pipeline, take one from a pool or have one made for each, nor whether the pools of
their instances come from a cache. What a provider runs stands for the pipeline that its factory makes
(`Offers`), and a run leaves it so, however it ends (`Offers.execute`). A pool of pipelines makes one for the
first run and lends it to all later ones (`runs_empty`).
-/

namespace Pipeworks

theorem RunResult.Alike.of_common {C : Type} {r r' r₀ : RunResult C} (h : r.Alike r₀) (h' : r'.Alike r₀) :
    r.Alike r' :=
  ⟨h.context.trans h'.context.symm, h.shortCircuited.trans h'.shortCircuited.symm,
    h.errors.trans h'.errors.symm, h.timings.trans h'.timings.symm⟩

theorem Ending.Like.of_common {ω ι C α : Type} {r : α → α → Prop} {e e' e₀ : Ending ω ι C α}
    (hr : ∀ a b c, r a c → r b c → r a b) (h : e.Like r e₀) (h' : e'.Like r e₀) : e.Like r e' := by
  cases h with
  | completed h =>
    cases h' with
    | completed h' => exact .completed (hr _ _ _ h h')
  | failed e =>
    cases h'
    exact .failed e
  | panicked text =>
    cases h'
    exact .panicked text
  | blocked h₁ h₂ =>
    cases h'
    exact .blocked _ _

theorem Ending.isBlocked_iff {ω ι C α : Type} {e : Ending ω ι C α} :
    e.isBlocked = true ↔ ∃ held, e = .blocked held := by
  cases e with
  | blocked held => exact iff_of_true rfl ⟨held, rfl⟩
  | completed a | failed e | panicked text =>
    exact iff_of_false Bool.false_ne_true fun ⟨held, h⟩ => by cases h

namespace Provider
variable {ω ι C : Type} [Host ω]

/-- A provider of a mode, with a cache for the pools of its pipelines or without. -/
def offering (mode : ProviderMode) (factory : PipelineFactory ω ι C) (max : Option Nat)
    (cache : Option CacheId) (s : Store ω ι) : Made ConfigError (Provider ω ι C) × Store ω ι :=
  let (m, s) : Made ConfigError (Provider ω ι C) × Store ω ι :=
    match mode with
    | .shared => let (m, s) := factory s; (m.map shared, s)
    | .pooled => (.made (pooled factory max s), s)
    | .perRun => (.made (perRun factory), s)
  match m with
  | .made v =>
    match cache.elim (.ok v) v.withCache with
    | .ok v => (.made v, s)
    | .error e => (.refused e, s)
  | m => (m, s)

theorem offering_pooled (factory : PipelineFactory ω ι C) (max : Option Nat) (cache : Option CacheId)
    (s : Store ω ι) :
    ∃ m, offering .pooled factory max cache s = (.made ⟨.pooled factory (.new poolName m), cache⟩, s) := by
  cases cache with
  | none => exact ⟨_, rfl⟩
  | some id => exact ⟨_, rfl⟩

/-- What the pool of a provider calls for a new pipeline. -/
def supply (factory : PipelineFactory ω ι C) (cache : Option CacheId) (s : Store ω ι) :
    Made EngineError (Pipeline ω ι C) × Store ω ι :=
  let (m, s) := build factory cache s
  (m.mapError .configuration, s)

variable {factory : PipelineFactory ω ι C} {pool : Pool (Pipeline ω ι C)} {cache cache' : Option CacheId}
variable {s t : Store ω ι} {q : Pipeline ω ι C}

omit [Host ω] in
theorem created_new (m : Nat) :
    (Pool.new poolName m : Pool (Pipeline ω ι C)).created < (Pool.new poolName m : Pool (Pipeline ω ι C)).max :=
  Nat.lt_of_lt_of_le Nat.zero_lt_one (Nat.le_max_right m 1)

omit [Host ω] in
theorem borrow_idle (factory : PipelineFactory ω ι C) (cache : Option CacheId) (hopen : pool.closed = false)
    (hidle : pool.idle = [q]) (s : Store ω ι) :
    pool.borrow (supply factory cache) s = (.item q, { pool with idle := [] }, s) := by
  simp only [Pool.borrow, Pool.take_of_idle hopen hidle]

omit [Host ω] in
theorem borrow_empty (hopen : pool.closed = false) (hidle : pool.idle = [])
    (hroom : pool.created < pool.max) (hb : build factory cache s = (.made q, t)) :
    pool.borrow (supply factory cache) s = (.item q, { pool with created := pool.created + 1 }, t) := by
  simp only [Pool.borrow, Pool.take_of_lt hopen hidle hroom, supply, hb]
  rfl

variable [LocalAction ω ι C]

/-- Runs made one after another: how they end, and the store behind them. None follows a run that is
blocked. -/
def runs (v : Provider ω ι C) : List C → Store ω ι → List (Ending ω ι C (RunResult C)) × Store ω ι
  | [], s => ([], s)
  | input :: inputs, s =>
    let r := v.execute input s
    if r.1.isBlocked then ([r.1], r.2.2)
    else
      let rest := r.2.1.runs inputs r.2.2
      (r.1 :: rest.1, rest.2)

/-! ### Pools of pipelines -/

theorem execute_item {rest : Pool (Pipeline ω ι C)} (input : C)
    (h : pool.borrow (supply factory cache) s = (.item q, rest, t)) (hopen : rest.closed = false)
    (hidle : rest.idle = []) :
    let r := q.execute none input t
    let v := execute ⟨.pooled factory pool, cache⟩ input s
    v.1 = r.1 ∧ v.2.2 = r.2.2 ∧ (r.1.isBlocked = false →
      ∃ pool', v.2.1 = ⟨.pooled factory pool', cache⟩ ∧ pool'.closed = false ∧ pool'.idle = [r.2.1]) := by
  intro r v
  have hv : v = (r.1, ⟨.pooled factory (if r.1.isBlocked then rest else rest.release r.2.1), cache⟩, r.2.2) := by
    show execute ⟨.pooled factory pool, cache⟩ input s = _
    have h' : pool.borrow (fun s => ((build factory cache s).1.mapError EngineError.configuration,
        (build factory cache s).2)) s = (.item q, rest, t) := h
    simp only [execute, h']
    rcases hr : q.execute none input t with ⟨e, q', u⟩
    simp only [r, hr]
    cases e <;> rfl
  rw [hv]
  refine ⟨rfl, rfl, fun hne => ⟨_, rfl, ?_⟩⟩
  rw [hne, if_neg Bool.false_ne_true, Pool.release_of_open hopen, hidle]
  exact ⟨hopen, rfl⟩

/-- Runs that begin with a pipeline from a pool that has no other one are runs of that pipeline, if this
holds of the later ones. -/
theorem runs_item {rest : Pool (Pipeline ω ι C)} (input : C) (inputs : List C)
    (h : pool.borrow (supply factory cache) s = (.item q, rest, t)) (hopen : rest.closed = false)
    (hidle : rest.idle = [])
    (hlater : ∀ (pool : Pool (Pipeline ω ι C)) (q : Pipeline ω ι C) (u : Store ω ι), pool.closed = false →
      pool.idle = [q] → runs ⟨.pooled factory pool, cache⟩ inputs u = (shared q).runs inputs u) :
    runs ⟨.pooled factory pool, cache⟩ (input :: inputs) s = (shared q).runs (input :: inputs) t := by
  obtain ⟨hend, hstore, hnext⟩ := execute_item input h hopen hidle
  have hshared : (shared q).execute input t =
      ((q.execute none input t).1, shared (q.execute none input t).2.1, (q.execute none input t).2.2) := rfl
  simp only [runs, hshared, hend, hstore]
  split
  · rfl
  · rename_i hne
    obtain ⟨pool', hv, hopen', hidle'⟩ := hnext (Bool.eq_false_iff.2 hne)
    rw [hv, hlater pool' _ _ hopen' hidle']

theorem runs_idle (hopen : pool.closed = false) (hidle : pool.idle = [q]) (inputs : List C)
    (s : Store ω ι) : runs ⟨.pooled factory pool, cache⟩ inputs s = (shared q).runs inputs s := by
  induction inputs generalizing pool q s with
  | nil => rfl
  | cons input inputs ih =>
    exact runs_item input inputs (borrow_idle factory cache hopen hidle s) hopen rfl
      fun _ _ u hopen hidle => ih hopen hidle u

theorem runs_empty (hopen : pool.closed = false) (hidle : pool.idle = []) (hroom : pool.created < pool.max)
    (hb : build factory cache s = (.made q, t)) (input : C) (inputs : List C) :
    runs ⟨.pooled factory pool, cache⟩ (input :: inputs) s = (shared q).runs (input :: inputs) t :=
  runs_item input inputs (borrow_empty hopen hidle hroom hb) hopen hidle
    fun _ _ u hopen hidle => runs_idle hopen hidle inputs u

end Provider

namespace Blur
variable {ω ι C : Type} [Host ω] [LocalAction ω ι C] {B : Blur ω} {s s' t : Store ω ι}
variable {p q : Pipeline ω ι C} {cache : Option CacheId} {v : Provider ω ι C}
variable {factory : PipelineFactory ω ι C}

/-- The factory always makes the pipeline. What else it does is not seen, and leaves the caches and the
pools at rest as they are. -/
def Supplies (B : Blur ω) (factory : PipelineFactory ω ι C) (p : Pipeline ω ι C) : Prop :=
  ∀ s, ∃ t, factory s = (.made p, t) ∧ B.Keeps C s t ∧ t.caches = s.caches ∧
    ∀ w, B.world s.world w → B.world t.world w

/-- The cache of the pipelines of a provider: its own, or else the one that they come with. -/
abbrev cacheOf (p : Pipeline ω ι C) (cache : Option CacheId) : Option CacheId := cache.or p.cache

omit [Host ω] [LocalAction ω ι C] in
theorem setCache_of_unsealed (hplan : p.plan = none) (id : CacheId) :
    p.setCache id = .ok { p with cache := some id } := by
  rw [Pipeline.setCache, Pipeline.change, Pipeline.isSealed, hplan]
  rfl

theorem Supplies.build (h : B.Supplies factory p) (hplan : p.plan = none) (cache : Option CacheId)
    (s : Store ω ι) :
    ∃ t, Provider.build factory cache s = (.made { p with cache := cacheOf p cache }, t) ∧
      B.Keeps C s t ∧ t.caches = s.caches ∧ ∀ w, B.world s.world w → B.world t.world w := by
  obtain ⟨t, hmade, hrest⟩ := h s
  refine ⟨t, ?_, hrest⟩
  cases cache with
  | none =>
    simp only [Provider.build, hmade, Option.elim_none]
    rfl
  | some id =>
    simp only [Provider.build, hmade, Option.elim_some, setCache_of_unsealed hplan]
    rfl

/-- What a provider runs stands for the pipeline that its factory makes. A pool of pipelines holds the one
that was made for the first run. -/
inductive Offers (B : Blur ω) (p : Pipeline ω ι C) : Provider ω ι C → Store ω ι → Prop
  | shared {q : Pipeline ω ι C} {cache : Option CacheId} {s : Store ω ι}
      (h : B.Stands s p (cacheOf p cache) q) : Offers B p ⟨.shared q, cache⟩ s
  | perRun {factory : PipelineFactory ω ι C} {cache : Option CacheId} {s : Store ω ι}
      (hf : B.Supplies factory p) (h : B.Fits s { p with cache := cacheOf p cache }) :
    Offers B p ⟨.perRun factory, cache⟩ s
  | empty {factory : PipelineFactory ω ι C} {pool : Pool (Pipeline ω ι C)} {cache : Option CacheId}
      {s : Store ω ι} (hf : B.Supplies factory p) (h : B.Fits s { p with cache := cacheOf p cache })
      (hopen : pool.closed = false) (hidle : pool.idle = []) (hroom : pool.created < pool.max) :
    Offers B p ⟨.pooled factory pool, cache⟩ s
  | idle {factory : PipelineFactory ω ι C} {pool : Pool (Pipeline ω ι C)} {cache : Option CacheId}
      {s : Store ω ι} {q : Pipeline ω ι C} (hopen : pool.closed = false) (hidle : pool.idle = [q])
      (h : B.Stands s p (cacheOf p cache) q) : Offers B p ⟨.pooled factory pool, cache⟩ s

/-- A run of a provider ends as the pipeline of the factory does without its pools, built for the run. -/
theorem Offers.execute (h : B.Offers p v s) (hplan : p.plan = none) (hstart : p.startLabel = none)
    (hw : B.world s.world s'.world) (input : C) :
    let r := v.execute input s
    let r' := p.unpooled.execute none input s'
    B.Ends s B.LikeResult (r.1, r.2.2) (r'.1, r'.2.2) ∧
      ((∃ held, r.1 = .blocked held) ∨ B.Offers p r.2.1 r.2.2) := by
  -- Runs of a pool of pipelines, with the pipeline that they borrow.
  have hpooled {factory : PipelineFactory ω ι C} {pool rest : Pool (Pipeline ω ι C)}
      {cache : Option CacheId} {q : Pipeline ω ι C} {t : Store ω ι}
      (hb : pool.borrow (Provider.supply factory cache) s = (.item q, rest, t)) (hopen : rest.closed = false)
      (hidle : rest.idle = []) (hk : B.Keeps C s t) (hq : B.Stands t p (cacheOf p cache) q)
      (hwt : B.world t.world s'.world) :
      let r := Provider.execute ⟨.pooled factory pool, cache⟩ input s
      let r' := p.unpooled.execute none input s'
      B.Ends s B.LikeResult (r.1, r.2.2) (r'.1, r'.2.2) ∧
        ((∃ held, r.1 = .blocked held) ∨ B.Offers p r.2.1 r.2.2) := by
    obtain ⟨hend, hstore, hnext⟩ := Provider.execute_item input hb hopen hidle
    obtain ⟨hends, hstands⟩ := hq.execute hplan hstart hwt input
    simp only [hend, hstore]
    refine ⟨hends.of_keeps hk, ?_⟩
    rcases hstands with hheld | hstands
    · exact .inl hheld
    · cases hblocked : (q.execute none input t).1.isBlocked with
      | true => exact .inl (Ending.isBlocked_iff.1 hblocked)
      | false =>
        obtain ⟨pool', hv, hopen', hidle'⟩ := hnext hblocked
        rw [hv]
        exact .inr (.idle hopen' hidle' hstands)
  cases h with
  | shared h =>
    obtain ⟨hends, hnext⟩ := h.execute hplan hstart hw input
    exact ⟨hends, hnext.imp_right .shared⟩
  | @perRun factory cache _ hf h =>
    obtain ⟨t, hb, hk, hcaches, hwt⟩ := hf.build hplan cache s
    obtain ⟨hends, hnext⟩ := (stands_new hplan (h.mono hk hcaches)).execute hplan hstart (hwt _ hw) input
    simp only [Provider.execute, hb]
    exact ⟨hends.of_keeps hk, hnext.imp_right fun h => .perRun hf h.fits_base⟩
  | @empty factory pool cache _ hf h hopen hidle hroom =>
    obtain ⟨t, hb, hk, hcaches, hwt⟩ := hf.build hplan cache s
    exact hpooled (Provider.borrow_empty hopen hidle hroom hb) hopen hidle hk
      (stands_new hplan (h.mono hk hcaches)) (hwt _ hw)
  | @idle factory pool cache _ q hopen hidle h =>
    exact hpooled (Provider.borrow_idle factory cache hopen hidle s) hopen rfl (.refl s) h hw

theorem Offers.runs {v v' : Provider ω ι C} {w : Store ω ι} (h : B.Offers p v s) (h' : B.Offers p v' s')
    (hplan : p.plan = none) (hstart : p.startLabel = none) (hw : B.world s.world w.world)
    (hw' : B.world s'.world w.world) (inputs : List C) :
    List.Forall₂ (Ending.Like RunResult.Alike) (v.runs inputs s).1 (v'.runs inputs s').1 := by
  induction inputs generalizing v v' s s' w with
  | nil => exact .nil
  | cons input inputs ih =>
    obtain ⟨hends, hnext⟩ := h.execute hplan hstart hw input
    obtain ⟨hends', hnext'⟩ := h'.execute hplan hstart hw' input
    obtain ⟨hlike, hblocked⟩ := hends.like
    obtain ⟨hlike', hblocked'⟩ := hends'.like
    have hboth := hlike.of_common (r := RunResult.Alike) (fun _ _ _ h h' => h.of_common h') hlike'
    have hsame : (v.execute input s).1.isBlocked = (v'.execute input s').1.isBlocked :=
      hblocked.trans hblocked'.symm
    simp only [Provider.runs]
    rw [← hsame]
    split
    · exact .cons hboth .nil
    · rename_i hne
      have hne' : ¬(v'.execute input s').1.isBlocked = true := hsame ▸ hne
      have hbeside := hends.beside.resolve_left fun hheld => hne (Ending.isBlocked_iff.2 hheld)
      have hbeside' := hends'.beside.resolve_left fun hheld => hne' (Ending.isBlocked_iff.2 hheld)
      have hoffers := hnext.resolve_left fun hheld => hne (Ending.isBlocked_iff.2 hheld)
      have hoffers' := hnext'.resolve_left fun hheld => hne' (Ending.isBlocked_iff.2 hheld)
      exact .cons hboth (ih hoffers hoffers' hbeside.world hbeside'.world)

theorem Fits.withCache (h : B.Fits s p) (hc : ∀ id, cache = some id → ∀ key, s.filed? id key = none) :
    B.Fits s { p with cache := cacheOf p cache } := by
  cases cache with
  | none => exact h
  | some id =>
    refine ⟨⟨fun {id' key kind pool f} hid hfile hf => ?_⟩, h.steps, h.sink, h.sleeper⟩
    cases hid
    rw [hc id rfl key] at hfile
    cases hfile

theorem Supplies.offering (hf : B.Supplies factory p) (hplan : p.plan = none) (hp : B.Fits s p)
    (hc : ∀ id, cache = some id → ∀ key, s.filed? id key = none) (mode : ProviderMode) (max : Option Nat) :
    ∃ v t, Provider.offering mode factory max cache s = (.made v, t) ∧ v.mode = mode ∧ B.Offers p v t ∧
      ∀ w, B.world s.world w → B.world t.world w := by
  have hfits := hp.withCache hc
  cases mode with
  | shared =>
    obtain ⟨t, hmade, hk, hcaches, hw⟩ := hf s
    refine ⟨⟨.shared { p with cache := cacheOf p cache }, cache⟩, t, ?_, rfl,
      .shared (stands_new hplan (hfits.mono hk hcaches)), hw⟩
    cases cache with
    | none =>
      simp only [Provider.offering, hmade]
      rfl
    | some id =>
      simp only [Provider.offering, hmade, Made.map, Provider.shared, Option.elim_some, Provider.withCache,
        setCache_of_unsealed hplan]
      rfl
  | pooled =>
    obtain ⟨m, hv⟩ := Provider.offering_pooled factory max cache s
    exact ⟨_, s, hv, rfl, .empty hf hfits rfl rfl (Provider.created_new m), fun _ h => h⟩
  | perRun =>
    cases cache with
    | none => exact ⟨_, s, rfl, rfl, .perRun hf hfits, fun _ h => h⟩
    | some id => exact ⟨_, s, rfl, rfl, .perRun hf hfits, fun _ h => h⟩

end Blur

/-- **Modes of providers are interchangeable.** Providers of any two modes and sizes, each with an empty
cache for its pools or without, answer the same inputs alike: run after run, both end with the same error or
panic, or with results that differ in durations alone. A provider that pools its pipelines makes one for the
first run, and all runs are runs of that one. -/
theorem provider_modes_interchangeable {ω ι C : Type} [Host ω] [LocalAction ω ι C] (B : Blur ω)
    {p : Pipeline ω ι C} (hplan : p.plan = none) (hstart : p.startLabel = none)
    {factory : PipelineFactory ω ι C} (hf : B.Supplies factory p) {s s' : Store ω ι} (hp : B.Fits s p)
    (hp' : B.Fits s' p) {cache cache' : Option CacheId}
    (hc : ∀ id, cache = some id → ∀ key, s.filed? id key = none)
    (hc' : ∀ id, cache' = some id → ∀ key, s'.filed? id key = none) {w : ω} (hw : B.world s.world w)
    (hw' : B.world s'.world w) (mode mode' : ProviderMode) (max max' : Option Nat) (inputs : List C) :
    ∃ v v' t t', Provider.offering mode factory max cache s = (.made v, t) ∧
      Provider.offering mode' factory max' cache' s' = (.made v', t') ∧
      List.Forall₂ (Ending.Like RunResult.Alike) (v.runs inputs t).1 (v'.runs inputs t').1 ∧
      (mode = .pooled → inputs ≠ [] →
        ∃ q u, Provider.build factory cache s = (.made q, u) ∧
          v.runs inputs t = (Provider.shared q).runs inputs u) := by
  obtain ⟨v, t, hv, hmode, hoffers, ht⟩ := hf.offering hplan hp hc mode max
  obtain ⟨v', t', hv', hmode', hoffers', ht'⟩ := hf.offering hplan hp' hc' mode' max'
  refine ⟨v, v', t, t', hv, hv', hoffers.runs hoffers' hplan hstart (w := .ofWorld w) (ht w hw) (ht' w hw') inputs,
    fun hpooled hne => ?_⟩
  subst hpooled
  obtain ⟨m, hv₀⟩ := Provider.offering_pooled factory max cache s
  cases hv.symm.trans hv₀
  obtain ⟨u, hb, -⟩ := hf.build hplan cache s
  obtain ⟨input, rest, rfl⟩ := List.exists_cons_of_ne_nil hne
  exact ⟨_, u, hb, Provider.runs_empty rfl rfl (Provider.created_new m) hb input rest⟩

namespace tallying

/-- Making the pipeline takes time. -/
def supply (pace : Nanos) : PipelineFactory Bench Tally Nat :=
  fun s => (.made (tallying pace), { s with world := Host.wait pace s.world })

theorem supplies_unclocked (pace : Nanos) : unclocked.Supplies (supply pace) (tallying pace) :=
  fun s => ⟨_, rfl, Blur.keeps_world s _, rfl, fun _ h => h⟩

end tallying

/-- A pool of pipelines that share the pools of a cache is not told from pipelines made for each run, though
one of the runs panics and making anything takes time. -/
theorem provider_modes_interchangeable_tallying :
    let s : Store Bench Tally := .ofWorld (.new 1)
    let cached := (s.addCache (.new 4)).2
    tallying.unclocked.Supplies (tallying.supply 5) (tallying 5) ∧
    tallying.unclocked.Fits cached (tallying 5) ∧ (∀ key, cached.filed? 0 key = none) ∧
    ∃ v v' t t', Provider.offering .pooled (tallying.supply 5) (some 2) (some 0) cached = (.made v, t) ∧
      Provider.offering .perRun (tallying.supply 5) none none s = (.made v', t') ∧
      List.Forall₂ (Ending.Like RunResult.Alike) (v.runs [1, 0, 1] t).1 (v'.runs [1, 0, 1] t').1 ∧
      ∃ q u, Provider.build (tallying.supply 5) (some 0) cached = (.made q, u) ∧
        v.runs [1, 0, 1] t = (Provider.shared q).runs [1, 0, 1] u := by
  intro s cached
  have hfits (t : Store Bench Tally) := (tallying.suits_unclocked 5).fits t
  have hfresh (key : CacheKey) : cached.filed? 0 key = none := rfl
  have hc (id : CacheId) (hid : (some 0 : Option CacheId) = some id) : ∀ key, cached.filed? id key = none := by
    cases hid
    exact hfresh
  have hc' (id : CacheId) (hid : (none : Option CacheId) = some id) : ∀ key, s.filed? id key = none := by
    cases hid
  refine ⟨tallying.supplies_unclocked 5, hfits cached, hfresh, ?_⟩
  obtain ⟨v, v', t, t', hv, hv', hlike, hone⟩ :=
    provider_modes_interchangeable tallying.unclocked rfl rfl (tallying.supplies_unclocked 5) (hfits cached)
      (hfits s) hc hc' (w := .new 1) rfl rfl .pooled .perRun (some 2) none [1, 0, 1]
  exact ⟨v, v', t, t', hv, hv', hlike, hone rfl (List.cons_ne_nil 1 [0, 1])⟩

end Pipeworks
