import Pipeworks.Bench
import Pipeworks.Pipeline.Runs
import Pipeworks.Pipeline.Unpooled
import Pipeworks.Pool.Stock

/-!
# Seals that fail

`failed_seal`: sealing that fails is not taken back. It binds the declared steps in running order up to
one that is refused. The steps before it have stocked the store, each under its own key
(`Store.Stocked`); the refused step and those behind it have done nothing to the pools and the caches.
-/

namespace Pipeworks

/-! ### Binding one action -/

namespace Manager
variable {ω ι C : Type} [Host ω] {site : BindSite} {kind : InstanceKind} {max : Option Nat}
  {f : LocalFactory ω ι} {s t : Store ω ι}

theorem poolAt_cases (site : BindSite) (kind : InstanceKind) (max : Option Nat) (f : LocalFactory ω ι)
    (s : Store ω ι) :
    (∃ id c n, site.cache = some id ∧ s.cache? id = some c ∧
      poolAt site kind max f s = s.poolFor id c site.cacheKey kind n f) ∨
    ((∀ id, site.cache = some id → s.cache? id = none) ∧
      ∃ p n, p.pool = .new site.cacheKey.display n ∧
        poolAt site kind max f s = (.ok s.pools.size, { s with pools := s.pools.push p })) := by
  cases hc : site.cache.bind fun id => (s.cache? id).map (id, ·) with
  | none =>
    right
    simp only [poolAt, hc]
    rw [Option.bind_eq_none_iff] at hc
    exact ⟨fun id h => Option.map_eq_none_iff.1 (hc id h), _, _, rfl, rfl⟩
  | some e =>
    left
    simp only [poolAt, hc]
    obtain ⟨id, hid, he⟩ := Option.bind_eq_some_iff.1 hc
    obtain ⟨c, hfound, rfl⟩ := Option.map_eq_some_iff.1 he
    exact ⟨id, c, _, hid, hfound, rfl⟩

theorem stocked_poolAt {id : PoolId} (h : poolAt site kind max f s = (.ok id, t)) (i : ι) :
    s.Stocked site.cache [site.cacheKey] (t.seed id i) := by
  rcases poolAt_cases site kind max f s with ⟨cache, c, n, hcache, hc, hpool⟩ | ⟨hnone, p, n, hp, hpool⟩
  · have hplaced : s.placed? site.cache site.cacheKey = c.find? site.cacheKey := by
      rw [Store.placed?, hcache, Option.bind_some, Store.filed?_eq_find? hc]
    cases hk : c.find? site.cacheKey with
    | none =>
      rw [hpool, Store.poolFor_of_none hk] at h
      cases h
      rw [hk] at hplaced
      refine .of_new kind hplaced rfl rfl Array.size_setIfInBounds fun id c' hc' => ?_
      rw [hcache]
      split
      · rename_i hid
        obtain rfl := Option.some.inj hid
        obtain rfl := Option.some.inj (hc'.symm.trans hc)
        obtain ⟨hlt, -⟩ := Array.getElem?_eq_some_iff.1 hc
        exact Array.getElem?_setIfInBounds_self_of_lt hlt
      · rename_i hid
        exact (Array.getElem?_setIfInBounds_ne fun h => hid (congrArg some h)).trans hc'
    | some e =>
      obtain ⟨kind', pool⟩ := e
      by_cases hkind : kind' = kind
      · subst hkind
        rw [hpool, Store.poolFor_of_same hk] at h
        cases h
        exact .of_known (hplaced.trans hk)
      · rw [hpool, Store.poolFor_of_other hk hkind] at h
        cases h
  · rw [hpool] at h
    cases h
    refine .of_new kind ?_ hp rfl rfl fun id c hc => ?_
    · rw [Store.placed?, Option.bind_eq_none_iff]
      intro id hid
      rw [Store.filed?, hnone id hid, Option.bind_none]
    · have hid : site.cache ≠ some id := fun hid => by
        rw [hnone id hid] at hc
        cases hc
      rw [if_neg hid]
      exact hc

theorem same_poolAt {e : ConfigError} (h : poolAt site kind max f s = (.error e, t)) : t = s := by
  rcases poolAt_cases site kind max f s with ⟨cache, c, n, -, -, hpool⟩ | ⟨-, p, n, -, hpool⟩
  · rw [hpool] at h
    unfold Store.poolFor at h
    split at h
    · cases h
      rfl
    · cases h
    · cases h
  · rw [hpool] at h
    cases h

variable [LocalAction ω ι C] {m : Manager ω ι C}

/-- The key of a pooled action at a site. -/
def key? (m : Manager ω ι C) (site : BindSite) : Option CacheKey := m.pooled?.map fun _ => site.cacheKey

theorem stocked_bind {a : BoundAction ω ι C} (h : m.bind site s = (.ok a, t)) :
    s.Stocked site.cache (m.key? site).toList t := by
  cases m with
  | shared action | perRun factory =>
    cases h
    exact .of_same rfl rfl
  | pooled factory max =>
    -- The factory has seen the world alone.
    have hmake : s.Stocked site.cache [] (s.make factory).2 := .of_same rfl rfl
    simp only [bind, bindPooled] at h
    split at h
    · cases h
    · cases h
    · rename_i i u hm
      rw [hm] at hmake
      split at h
      · cases h
      · split at h
        · cases h
        · rename_i pool v hpool
          cases h
          exact hmake.trans (stocked_poolAt hpool i) fun _ _ => List.not_mem_nil

theorem same_bind {e : Halt ConfigError} (h : m.bind site s = (.error e, t)) :
    t.pools = s.pools ∧ t.caches = s.caches := by
  cases m with
  | shared action | perRun factory => cases h
  | pooled factory max =>
    have hmake : (s.make factory).2.pools = s.pools ∧ (s.make factory).2.caches = s.caches := ⟨rfl, rfl⟩
    simp only [bind, bindPooled] at h
    split at h
    · rename_i hm
      cases h
      rwa [hm] at hmake
    · rename_i hm
      cases h
      rwa [hm] at hmake
    · rename_i i u hm
      rw [hm] at hmake
      split at h
      · cases h
        exact hmake
      · split at h
        · rename_i e' v hpool
          cases h
          rw [same_poolAt hpool]
          exact hmake
        · cases h

end Manager

/-! ### Binding declared steps -/

/-- A declared step, with the place that it is to be bound to. -/
structure Declared (ω ι C : Type) where
  site : BindSite
  spec : StepSpec ω ι C

namespace Declared
variable {ω ι C : Type}

/-- The steps of a phase, from an index on. -/
def ofPhase (site : Definition.Site) (phase : Phase) (n : Nat) (specs : List (StepSpec ω ι C)) :
    List (Declared ω ι C) :=
  (specs.zipIdx n).map fun d => ⟨site.at phase d.2 d.1.label, d.1⟩

/-- The steps of all phases, in running order. -/
def ofPhases (site : Definition.Site) (specs : ByPhase (List (StepSpec ω ι C))) : List (Declared ω ι C) :=
  ofPhase site .pre 0 specs.pre ++ (ofPhase site .main 0 specs.main ++ ofPhase site .post 0 specs.post)

def labels (ds : List (Declared ω ι C)) : List String := ds.filterMap (·.spec.label)

/-- The keys of the pooled steps. -/
def keys (ds : List (Declared ω ι C)) : List CacheKey := ds.filterMap fun d => d.spec.manager.key? d.site

/-- A step is refused for its label, which is taken, or by its manager. The pools and the caches stay. -/
inductive Refused [Host ω] [LocalAction ω ι C] (taken : List String) (d : Declared ω ι C) :
    Halt ConfigError → Store ω ι → Prop
  | label {label : String} {t : Store ω ι} (hl : d.spec.label = some label) (ht : label ∈ taken) :
    Refused taken d (.error (.duplicateLabel d.site.pipeline label)) t
  | manager {e : Halt ConfigError} {s t : Store ω ι} (h : d.spec.manager.bind d.site s = (.error e, t))
    (hp : t.pools = s.pools) (hc : t.caches = s.caches) : Refused taken d e t

/-- Binding the steps of a list stops at one that is refused. Those before it were bound. -/
inductive Stops [Host ω] [LocalAction ω ι C] (cache : Option CacheId) (taken : List String)
    (ds : List (Declared ω ι C)) (s : Store ω ι) (e : Halt ConfigError) (t : Store ω ι) : Prop
  | at (before : List (Declared ω ι C)) (d : Declared ω ι C) (behind : List (Declared ω ι C))
    (hds : ds = before ++ d :: behind) (hd : d.Refused (labels before ++ taken) e t)
    (hs : s.Stocked cache (keys before) t) : Stops cache taken ds s e t

theorem labels_ofPhase (site : Definition.Site) (phase : Phase) (n : Nat) (specs : List (StepSpec ω ι C)) :
    labels (ofPhase site phase n specs) = StepSpec.labels specs := by
  induction specs generalizing n with
  | nil => rfl
  | cons spec specs ih =>
    show labels (⟨site.at phase n spec.label, spec⟩ :: ofPhase site phase (n + 1) specs) = _
    rw [labels, StepSpec.labels, List.filterMap_cons, List.filterMap_cons, ← labels, ih, StepSpec.labels]

theorem keys_singleton (d : Declared ω ι C) : keys [d] = (d.spec.manager.key? d.site).toList := by
  cases h : d.spec.manager.key? d.site <;> simp [keys, h]

theorem mem_keys_ofPhase {site : Definition.Site} {phase : Phase} {n : Nat}
    {specs : List (StepSpec ω ι C)} {key : CacheKey} (h : key ∈ keys (ofPhase site phase n specs)) :
    key.phase = phase ∧ n ≤ key.index := by
  simp only [keys, ofPhase, List.mem_filterMap, List.mem_map] at h
  obtain ⟨d, ⟨⟨spec, i⟩, hmem, rfl⟩, hkey⟩ := h
  obtain ⟨f, -, rfl⟩ := Option.map_eq_some_iff.1 hkey
  exact ⟨rfl, (List.mem_zipIdx hmem).1⟩

variable [Host ω] [LocalAction ω ι C] {cache : Option CacheId} {taken : List String}
  {ds ds' : List (Declared ω ι C)} {d : Declared ω ι C} {e : Halt ConfigError} {s t u : Store ω ι}

theorem Refused.mono {taken' : List String} (h : d.Refused taken e t)
    (ht : ∀ label ∈ taken, label ∈ taken') : d.Refused taken' e t := by
  cases h with
  | label hl hmem => exact .label hl (ht _ hmem)
  | manager h hp hc => exact .manager h hp hc

theorem Stops.append (h : Stops cache taken ds s e t) (ds' : List (Declared ω ι C)) :
    Stops cache taken (ds ++ ds') s e t := by
  obtain ⟨before, d, behind, rfl, hd, hs⟩ := h
  exact .at before d (behind ++ ds') (by rw [List.append_assoc, List.cons_append]) hd hs

/-- Steps that were bound come before those of a list that stops. -/
theorem Stops.behind {taken' : List String} (h : Stops cache taken' ds t e u)
    (hs : s.Stocked cache (keys ds') t) (ht : ∀ label ∈ taken', label ∈ labels ds' ++ taken)
    (hk : ∀ key ∈ keys ds, key ∉ keys ds') : Stops cache taken (ds' ++ ds) s e u := by
  obtain ⟨before, d, behind, rfl, hd, hs'⟩ := h
  refine .at (ds' ++ before) d behind (List.append_assoc ..).symm (hd.mono fun label hl => ?_) ?_
  · rw [labels, List.filterMap_append, List.append_assoc, List.mem_append]
    rcases List.mem_append.1 hl with hl | hl
    · exact .inr (List.mem_append_left _ hl)
    · rcases List.mem_append.1 (ht label hl) with hl | hl
      · exact .inl hl
      · exact .inr (List.mem_append_right _ hl)
  · rw [keys, List.filterMap_append]
    refine hs.trans hs' fun key hkey => hk key ?_
    rw [keys, List.filterMap_append]
    exact List.mem_append_left _ hkey

end Declared

namespace Definition
variable {ω ι C : Type} [Host ω] [LocalAction ω ι C] {site : Site} {phase : Phase} {n : Nat}
  {taken taken' : List String} {spec : StepSpec ω ι C} {specs : List (StepSpec ω ι C)}
  {e : Halt ConfigError} {s t : Store ω ι}

theorem stocked_bindStep {step : BoundStep ω ι C} (h : bindStep site phase n spec s = (.ok step, t)) :
    s.Stocked site.cache (Declared.keys [⟨site.at phase n spec.label, spec⟩]) t := by
  rw [Declared.keys_singleton]
  unfold bindStep at h
  split at h
  · cases h
  · rename_i hbind
    cases h
    exact Manager.stocked_bind hbind

omit [Host ω] [LocalAction ω ι C] in
theorem keys_apart (site : Site) (phase : Phase) (n : Nat) (spec : StepSpec ω ι C)
    (specs : List (StepSpec ω ι C)) :
    ∀ key ∈ Declared.keys (Declared.ofPhase site phase (n + 1) specs),
      key ∉ Declared.keys [⟨site.at phase n spec.label, spec⟩] := by
  intro key hkey hmem
  have hindex : n + 1 ≤ key.index := (Declared.mem_keys_ofPhase hkey).2
  rw [Declared.keys_singleton, Option.mem_toList] at hmem
  obtain ⟨f, -, rfl⟩ := Option.map_eq_some_iff.1 hmem
  exact Nat.lt_irrefl n hindex

theorem stocked_bindPhase {steps : List (BoundStep ω ι C)}
    (h : bindPhase site phase n taken specs s = (.ok (steps, taken'), t)) :
    s.Stocked site.cache (Declared.keys (Declared.ofPhase site phase n specs)) t := by
  induction specs generalizing n taken s steps with
  | nil =>
    cases h
    exact .of_same rfl rfl
  | cons spec specs ih =>
    unfold bindPhase at h
    split at h
    · cases h
    · split at h
      · cases h
      · rename_i hstep
        split at h
        · cases h
        · rename_i hrest
          cases h
          have hs := (stocked_bindStep hstep).trans (ih hrest) (keys_apart site phase n spec specs)
          rwa [Declared.keys, Declared.keys, ← List.filterMap_append] at hs

theorem stops_bindPhase (h : bindPhase site phase n taken specs s = (.error e, t)) :
    Declared.Stops site.cache taken (Declared.ofPhase site phase n specs) s e t := by
  induction specs generalizing n taken s with
  | nil => cases h
  | cons spec specs ih =>
    have hhere {s t : Store ω ι} (hd : Declared.Refused taken ⟨site.at phase n spec.label, spec⟩ e t)
        (hp : t.pools = s.pools) (hc : t.caches = s.caches) :
        Declared.Stops site.cache taken (Declared.ofPhase site phase n (spec :: specs)) s e t :=
      .at [] _ _ rfl hd (.of_same hp hc)
    unfold bindPhase at h
    split at h
    · rename_i label hlabel
      cases h
      obtain ⟨hl, ht⟩ := Option.filter_eq_some_iff.1 hlabel
      exact hhere (.label hl (List.contains_iff_mem.1 ht)) rfl rfl
    · split at h
      · rename_i hstep
        cases h
        have hbind := bindStep_eq_error hstep
        obtain ⟨hp, hc⟩ := Manager.same_bind hbind
        exact hhere (.manager hbind hp hc) hp hc
      · rename_i hstep
        split at h
        · rename_i hrest
          cases h
          refine (ih hrest).behind (stocked_bindStep hstep) (fun label hl => ?_)
            (keys_apart site phase n spec specs)
          cases hlabel : spec.label <;> simpa [Declared.labels, hlabel] using hl
        · cases h

omit [Host ω] [LocalAction ω ι C] in
theorem phases_apart {ph ph' : Phase} (hne : ph' ≠ ph) (m n : Nat) (specs' : List (StepSpec ω ι C)) :
    ∀ key ∈ Declared.keys (Declared.ofPhase site ph' m specs'),
      key ∉ Declared.keys (Declared.ofPhase site ph n specs) := fun _ hkey hmem =>
  hne ((Declared.mem_keys_ofPhase hkey).1.symm.trans (Declared.mem_keys_ofPhase hmem).1)

theorem stops_bind {policy : ErrorPolicy} {handler : Option (ErrorHandler C)}
    {specs : ByPhase (List (StepSpec ω ι C))} (h : bind site policy handler specs s = (.error e, t)) :
    Declared.Stops site.cache [] (Declared.ofPhases site specs) s e t := by
  have hlabels {phase : Phase} {specs : List (StepSpec ω ι C)} {label : String} {taken : List String}
      (hl : label ∈ (StepSpec.labels specs).reverse ++ taken) :
      label ∈ Declared.labels (Declared.ofPhase site phase 0 specs) ++ taken := by
    rw [Declared.labels_ofPhase]
    simpa using hl
  unfold bind at h
  split at h
  · rename_i hpre
    cases h
    exact (stops_bindPhase hpre).append _
  · rename_i hpre
    obtain ⟨-, rfl⟩ := bindPhase_eq_ok hpre
    split at h
    · rename_i hmain
      cases h
      refine ((stops_bindPhase hmain).append _).behind (stocked_bindPhase hpre) (fun _ => hlabels) ?_
      rw [Declared.keys, List.filterMap_append, List.forall_mem_append]
      exact ⟨phases_apart (by decide) 0 0 _, phases_apart (by decide) 0 0 _⟩
    · rename_i hmain
      obtain ⟨-, rfl⟩ := bindPhase_eq_ok hmain
      split at h
      · rename_i hpost
        cases h
        refine ((stops_bindPhase hpost).behind (stocked_bindPhase hmain) (fun _ => hlabels)
          (phases_apart (by decide) 0 0 _)).behind (stocked_bindPhase hpre) (fun _ => hlabels) ?_
        rw [Declared.keys, List.filterMap_append, List.forall_mem_append]
        exact ⟨phases_apart (by decide) 0 0 _, phases_apart (by decide) 0 0 _⟩
      · cases h

end Definition

namespace Pipeline
variable {ω ι C : Type} {p : Pipeline ω ι C}

/-- The steps in running order. -/
def declared (p : Pipeline ω ι C) : List (Declared ω ι C) := Declared.ofPhases p.site p.specs

/-- Only a pipeline that is not sealed yet can fail to be sealed. -/
theorem stops_sealPlan [Host ω] [LocalAction ω ι C] {e : Halt ConfigError} {s t : Store ω ι}
    (h : p.sealPlan s = (.error e, t)) : p.plan = none ∧ Declared.Stops p.cache [] p.declared s e t := by
  cases hplan : p.plan with
  | some plan =>
    rw [sealPlan_of_plan hplan] at h
    cases h
  | none =>
    refine ⟨rfl, ?_⟩
    rcases hb : Definition.bind p.site p.policy p.handler p.specs s with ⟨e' | d, u⟩
    · rw [sealPlan_of_error hplan hb] at h
      cases h
      exact Definition.stops_bind hb
    · rw [sealPlan_of_bind hplan hb] at h
      cases h

end Pipeline

variable {ω ι C : Type} [Host ω] [LocalAction ω ι C]

/-- Sealing that fails, by hand or for a run, leaves the pipeline as it was, not sealed. It stopped at one
of the declared steps, which was refused, and it is not taken back: the pooled steps before have stocked
the store, and nothing else has changed but the world. Where there is none, the pools and the caches are
as they were. A kind of instances that was welcome in a cache under a key still finds there what it would
have found, unless one of the steps before has entered that key. -/
theorem failed_seal {p : Pipeline ω ι C} {s t : Store ω ι} {e : ConfigError}
    (h : p.sealPlan s = (.error (.error e), t)) :
    p.plan = none ∧
    (∀ out input, p.execute out input s = (.failed (.configuration e), p, t)) ∧
    ∃ before d behind, p.declared = before ++ d :: behind ∧
      d.Refused (Declared.labels before) (.error e) t ∧
      s.Stocked p.cache (Declared.keys before) t ∧
      (Declared.keys before = [] → t.pools = s.pools ∧ t.caches = s.caches) ∧
      ∀ id c key kind found, s.cache? id = some c → c.check key kind = .ok found →
        ∃ c', t.cache? id = some c' ∧ (c'.check key kind = .ok found ∨
          found = none ∧ p.cache = some id ∧ key ∈ Declared.keys before ∧
            ∃ kind' pool, c'.find? key = some (kind', pool) ∧ s.pools.size ≤ pool) := by
  obtain ⟨hplan, before, d, behind, hds, hd, hs⟩ := Pipeline.stops_sealPlan h
  rw [List.append_nil] at hd
  refine ⟨hplan, fun out input => ?_, before, d, behind, hds, hd, hs, fun hkeys => ?_,
    fun id c key kind found hc hfound => hs.check hc hfound⟩
  · simp only [Pipeline.execute, h]
  · rw [hkeys] at hs
    exact hs.same

/-- An instance that names its kind. -/
structure Ware where
  kind : String

instance : LocalAction Bench Ware Nat where
  contextType := "Nat"
  apply i v _ w := (⟨.next v, .none, w⟩, i)
  reset i w := (.done, i, w)
  supportsReset _ := true
  typeName i := i.kind
  style _ := .unary

/-- A pipeline that pools wares of a kind in a cache, with other steps behind. -/
def vending (kind : String) (behind : List (StepSpec Bench Ware Nat)) : Pipeline Bench Ware Nat :=
  { Pipeline.new "vending" with
    cache := some 0
    specs := ⟨[], .pooled (fun w => (.made ⟨kind⟩, w)) none :: behind, []⟩ }

namespace vending

/-- A pooled step whose factory refuses. -/
def broken : StepSpec Bench Ware Nat := .pooled (fun w => (.refused (.mk "no" []), w)) none

/-- An empty cache, for pools of two. -/
def shelf : Store Bench Ware := { Store.ofWorld (.new 1) with caches := #[.new 2] }

/-- The instances that are idle in the first pool, and those that it counts. -/
def stock (s : Store Bench Ware) : Option (Nat × Nat) :=
  (s.pool? 0).map fun p => (p.pool.idle.length, p.pool.created)

end vending

open vending in
/-- A key of another pipeline is as free behind a seal that failed as it was before. -/
theorem failed_seal_vending :
    let p := vending "coin" [broken]
    let t := (p.sealPlan shelf).2
    let key : CacheKey := ⟨"other", .main, 0, none⟩
    (p.execute none 1 shelf).2 = (p, t) ∧
      ∃ c', t.cache? 0 = some c' ∧ c'.check key ⟨"coin", .unary, "Nat"⟩ = .ok none := by
  intro p t key
  have hseal : ∃ e, p.sealPlan shelf = (.error (.error e), t) := ⟨_, rfl⟩
  obtain ⟨e, hseal⟩ := hseal
  obtain ⟨-, hrun, before, d, behind, hds, -, -, -, hfree⟩ := failed_seal hseal
  obtain ⟨c', hc', hcheck⟩ := hfree 0 (.new 2) key ⟨"coin", .unary, "Nat"⟩ none rfl rfl
  refine ⟨by rw [hrun], c', hc', hcheck.resolve_right fun ⟨_, _, hkey, _⟩ => ?_⟩
  have hmem : key ∈ Declared.keys p.declared := by
    rw [hds, Declared.keys, List.filterMap_append]
    exact List.mem_append_left _ hkey
  have hkeys : Declared.keys p.declared = [⟨"vending", .main, 0, none⟩, ⟨"vending", .main, 1, none⟩] := rfl
  rw [hkeys] at hmem
  revert hmem
  decide

open vending in
/-- A seal that failed has entered a key and seeded its pool, and seeds it again when it fails again. Wares
of another kind could be pooled under that key before it failed, but cannot be any more. -/
theorem failed_seal_enters_key :
    let p := vending "coin" [broken]
    let t := (p.sealPlan shelf).2
    let key : CacheKey := ⟨"vending", .main, 0, none⟩
    let kind (name : String) : InstanceKind := ⟨name, .unary, "Nat"⟩
    (p.sealPlan shelf).1 = .error (.error (.construction (Phase.main.stepName 1 none) (.mk "no" []))) ∧
      (shelf.cache? 0).map (·.keys) = some [] ∧ (t.cache? 0).map (·.keys) = some [key] ∧
      stock t = some (1, 1) ∧ stock (p.sealPlan t).2 = some (2, 2) ∧
      (∃ plan q s, (vending "note" []).sealPlan shelf = (.ok (plan, q), s)) ∧
      ((vending "note" []).sealPlan t).1 =
        .error (.error (.keyCollision key.display (kind "coin").describe (kind "note").describe)) :=
  ⟨rfl, rfl, rfl, rfl, rfl, ⟨_, _, _, rfl⟩, rfl⟩

end Pipeworks
