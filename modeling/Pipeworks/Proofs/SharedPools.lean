import Pipeworks.Pool.Sharing
/-!
# One pool for each key

`one_pool_per_key`: whatever is asked of the caches and done with their pools, an entry of a cache stays
as the first question under its key made it, with a pool of its own that is never resized, and a question
that does not fit it is refused and changes nothing.
-/

namespace Pipeworks
namespace Sharing
variable {ω ι : Type} {x y z : Sharing ω ι} {cache : CacheId} {key : CacheKey} {q : Wish}

/-! ### Questions and entries -/

theorem first?_concat (cache : CacheId) (key : CacheKey) (q : Wish) (h : y.asked = x.asked ++ [q]) :
    y.first? cache key = (x.first? cache key).or (if q.cache = cache ∧ q.key = key then some q else none) := by
  rw [first?, h, List.find?_append, List.find?_singleton]
  simp only [first?, decide_eq_true_eq]

theorem first?_concat_self (q : Wish) (h : y.asked = x.asked ++ [q]) (hx : x.first? q.cache q.key = none) :
    y.first? q.cache q.key = some q := by
  rw [first?_concat q.cache q.key q h, hx, if_pos ⟨rfl, rfl⟩, Option.none_or]

theorem first?_concat_ne (h : y.asked = x.asked ++ [q]) (hne : ¬ (q.cache = cache ∧ q.key = key)) :
    y.first? cache key = x.first? cache key := by
  rw [first?_concat cache key q h, if_neg hne, Option.or_none]

theorem pool?_push {p p' : InstancePool ω ι} (hy : y.store.pools = x.store.pools.push p') {id : PoolId}
    (h : x.store.pool? id = some p) : y.store.pool? id = some p := by
  obtain ⟨hlt, -⟩ := Array.getElem?_eq_some_iff.1 h
  rw [Store.pool?, hy, Array.getElem?_push_lt hlt, ← h, Store.pool?, Array.getElem?_eq_getElem hlt]

/-! ### What stays -/

/-- Nothing that was entered goes away, and no pool is resized. -/
structure Grows (x y : Sharing ω ι) : Prop where
  first : ∀ {cache key q}, x.first? cache key = some q → y.first? cache key = some q
  entry : ∀ {cache key e}, x.filed? cache key = some e → y.filed? cache key = some e
  pool : ∀ {id p}, x.store.pool? id = some p →
    ∃ p', y.store.pool? id = some p' ∧ p'.pool.max = p.pool.max

theorem Grows.refl (x : Sharing ω ι) : x.Grows x := ⟨id, id, fun h => ⟨_, h, rfl⟩⟩

theorem Grows.trans (h : x.Grows y) (h' : y.Grows z) : x.Grows z where
  first hq := h'.first (h.first hq)
  entry he := h'.entry (h.entry he)
  pool hp := by
    obtain ⟨p', hp', hmax⟩ := h.pool hp
    obtain ⟨p'', hp'', hmax'⟩ := h'.pool hp'
    exact ⟨p'', hp'', hmax'.trans hmax⟩

theorem first?_mono (h : y.asked = x.asked ++ [q]) {e : Wish} (he : x.first? cache key = some e) :
    y.first? cache key = some e := by
  rw [first?_concat cache key q h, he, Option.some_or]

theorem Shift.grows (h : x.Shift y) : x.Grows y := by
  cases h with
  | world w => exact ⟨id, id, fun h => ⟨_, h, rfl⟩⟩
  | known q he => exact ⟨first?_mono rfl, id, fun h => ⟨_, h, rfl⟩⟩
  | @entered q f c hc hk =>
    refine ⟨first?_mono rfl, fun {cache key e} he => ?_, fun h => ⟨_, pool?_push rfl h, rfl⟩⟩
    refine (Store.filed?_add_ne hc rfl ?_).trans he
    rintro ⟨rfl, rfl⟩
    exact absurd (he.symm.trans ((Store.filed?_eq_find? hc q.key).trans hk)) nofun
  | added name max f => exact ⟨id, id, fun h => ⟨_, pool?_push rfl h, rfl⟩⟩
  | @changed id p w q lent making hp hmax hq hne =>
    refine ⟨fun h => h, fun h => h, fun {i p'} h => ?_⟩
    by_cases hi : i = id
    · subst hi
      obtain rfl := Option.some.inj (hp.symm.trans h)
      exact ⟨_, Store.pool?_setPool_self (s := { x.store with world := w }) hp, hmax⟩
    · exact ⟨p', (Store.pool?_setPool_ne hi).trans h, rfl⟩

theorem grows_run (x : Sharing ω ι) (ms : List (Move ω ι)) : x.Grows (x.run ms) :=
  run_keeps (Grows.refl x) (fun _ _ h hs => h.trans hs.grows) ms

/-! ### What is out of a pool -/

/-- The count of a pool covers what is out of it, and nothing is out of a pool that is not there. -/
structure Counted (x : Sharing ω ι) : Prop where
  covered : ∀ {id p}, x.store.pool? id = some p → p.pool.Covers (x.live id)
  held : ∀ {id}, x.store.pool? id = none → x.live id = 0

theorem Counted.pushed (h : x.Counted) {name : String} {max : Nat} {f : LocalFactory ω ι}
    (hy : y.store.pools = x.store.pools.push ⟨.new name max, f⟩) (hlive : y.live = x.live) : y.Counted := by
  have hpool (id : PoolId) : y.store.pool? id =
      if id = x.store.pools.size then some ⟨.new name max, f⟩ else x.store.pool? id := by
    rw [Store.pool?, hy, Array.getElem?_push]
    rfl
  refine ⟨fun {id p} hp => ?_, fun {id} hp => ?_⟩ <;> rw [hpool] at hp <;> rw [hlive] <;> split at hp
  · rename_i hid
    cases hp
    rw [hid, h.held (Array.getElem?_size)]
    exact Pool.covers_new name max
  · exact h.covered hp
  · cases hp
  · exact h.held hp

theorem Counted.shift (h : x.Counted) (hs : x.Shift y) : y.Counted := by
  cases hs with
  | world w => exact ⟨h.covered, h.held⟩
  | known q he => exact ⟨h.covered, h.held⟩
  | entered q f hc hk => exact h.pushed rfl rfl
  | added name max f => exact h.pushed rfl rfl
  | @changed id p w q lent making hp hmax hq hne =>
    have hself := Store.pool?_setPool_self (s := { x.store with world := w }) (q := q) hp
    have hother {i : PoolId} (hi : i ≠ id) :=
      Store.pool?_setPool_ne (s := { x.store with world := w }) (q := q) hi
    refine ⟨fun {i p'} hp' => ?_, fun {i} hp' => ?_⟩ <;> by_cases hi : i = id
    · subst hi
      obtain rfl := Option.some.inj (hself.symm.trans hp')
      exact hq (h.covered hp)
    · rw [live, hne i hi]
      exact h.covered ((hother hi).symm.trans hp')
    · subst hi
      cases hself.symm.trans hp'
    · rw [live, hne i hi]
      exact h.held ((hother hi).symm.trans hp')

/-! ### What is entered -/

/-- A key is entered with the first question under it, with a pool of its own. -/
structure Entered (x : Sharing ω ι) : Prop where
  new : ∀ {cache key}, x.filed? cache key = none → x.first? cache key = none
  bound : ∀ {cache key kind id}, x.filed? cache key = some (kind, id) →
    ∃ q p, x.first? cache key = some q ∧ q.kind = kind ∧ x.store.pool? id = some p ∧
      p.pool.max = Nat.max q.max 1
  apart : ∀ {cache key kind cache' key' kind' id}, x.filed? cache key = some (kind, id) →
    x.filed? cache' key' = some (kind', id) → cache = cache' ∧ key = key'

theorem Entered.grown (h : x.Entered) (hg : x.Grows y) (hcaches : y.store.caches = x.store.caches)
    (hasked : y.asked = x.asked) : y.Entered := by
  have hfirst : y.first? = x.first? := by
    funext cache key
    rw [first?, hasked]
    rfl
  have hentry : y.filed? = x.filed? := Store.filed?_of_caches hcaches
  refine ⟨fun hn => ?_, fun hb => ?_, fun hb hb' => ?_⟩
  · rw [hfirst]
    exact h.new (hentry ▸ hn)
  · obtain ⟨q, p, hq, hkind, hp, hmax⟩ := h.bound (hentry ▸ hb)
    obtain ⟨p', hp', hmax'⟩ := hg.pool hp
    exact ⟨q, p', hg.first hq, hkind, hp', hmax'.trans hmax⟩
  · rw [hentry] at hb hb'
    exact h.apart hb hb'

theorem Entered.entered (h : x.Entered) {f : LocalFactory ω ι} {c : PoolCache}
    (hc : x.store.cache? q.cache = some c) (hk : c.find? q.key = none)
    (hpools : y.store.pools = x.store.pools.push ⟨.new q.key.display q.max, f⟩)
    (hcaches : y.store.caches =
      x.store.caches.setIfInBounds q.cache (c.add q.key q.kind x.store.pools.size))
    (hasked : y.asked = x.asked ++ [q]) : y.Entered := by
  have hnone : x.filed? q.cache q.key = none := (Store.filed?_eq_find? hc q.key).trans hk
  have hself : y.filed? q.cache q.key = some (q.kind, x.store.pools.size) :=
    Store.filed?_add_self hc hk hcaches
  have hother {cache : CacheId} {key : CacheKey} (hne : ¬(q.cache = cache ∧ q.key = key)) :
      y.filed? cache key = x.filed? cache key := Store.filed?_add_ne hc hcaches hne
  -- The pools of the old entries come before the new one.
  have hold {cache key kind id} (hb : x.filed? cache key = some (kind, id)) : id ≠ x.store.pools.size := by
    rintro rfl
    obtain ⟨q, p, -, -, hp, -⟩ := h.bound hb
    exact absurd (hp.symm.trans Array.getElem?_size) nofun
  refine ⟨fun {cache key} hn => ?_, fun {cache key kind id} hb => ?_,
    fun {cache key kind cache' key' kind' id} hb hb' => ?_⟩
  · by_cases heq : q.cache = cache ∧ q.key = key
    · obtain ⟨rfl, rfl⟩ := heq
      exact absurd (hself.symm.trans hn) nofun
    · rw [first?_concat_ne hasked heq]
      exact h.new ((hother heq).symm.trans hn)
  · by_cases heq : q.cache = cache ∧ q.key = key
    · obtain ⟨rfl, rfl⟩ := heq
      cases hself.symm.trans hb
      refine ⟨q, ⟨.new q.key.display q.max, f⟩, first?_concat_self q hasked (h.new hnone), rfl, ?_, rfl⟩
      rw [Store.pool?, hpools, Array.getElem?_push_size]
    · obtain ⟨q', p, hq', hkind, hp, hmax⟩ := h.bound ((hother heq).symm.trans hb)
      exact ⟨q', p, first?_mono hasked hq', hkind, pool?_push hpools hp, hmax⟩
  · by_cases heq : q.cache = cache ∧ q.key = key <;> by_cases heq' : q.cache = cache' ∧ q.key = key'
    · exact ⟨heq.1.symm.trans heq'.1, heq.2.symm.trans heq'.2⟩
    · obtain ⟨rfl, rfl⟩ := heq
      cases hself.symm.trans hb
      exact absurd rfl (hold ((hother heq').symm.trans hb'))
    · obtain ⟨rfl, rfl⟩ := heq'
      cases hself.symm.trans hb'
      exact absurd rfl (hold ((hother heq).symm.trans hb))
    · exact h.apart ((hother heq).symm.trans hb) ((hother heq').symm.trans hb')

theorem Entered.shift (h : x.Entered) (hs : x.Shift y) : y.Entered := by
  have hg := hs.grows
  cases hs with
  | @known q e he =>
    refine ⟨fun {cache key} hn => ?_, fun hb => ?_, h.apart⟩
    · rw [first?_concat_ne rfl]
      · exact h.new hn
      · rintro ⟨rfl, rfl⟩
        exact absurd (he.symm.trans hn) nofun
    · obtain ⟨q', p, hq', hrest⟩ := h.bound hb
      exact ⟨q', p, first?_mono rfl hq', hrest⟩
  | entered q f hc hk => exact h.entered hc hk rfl rfl rfl
  | world | added | changed => exact h.grown hg rfl rfl

/-! ### Answers -/

section
variable {f : LocalFactory ω ι} {a : Except ConfigError PoolId}

theorem answer_cases (ha : x.answer q f = some a) :
    (∃ id, x.filed? q.cache q.key = some (q.kind, id) ∧ a = .ok id ∧ (x.ask q f).store = x.store) ∨
    (∃ kind id e, x.filed? q.cache q.key = some (kind, id) ∧ kind ≠ q.kind ∧ a = .error e ∧
      e.code? = some "CONFIG-004-KEY_COLLISION" ∧ (x.ask q f).store = x.store) ∨
    (x.filed? q.cache q.key = none ∧
      ∃ id, a = .ok id ∧ (x.ask q f).filed? q.cache q.key = some (q.kind, id)) := by
  obtain ⟨c, hc, rfl⟩ := Option.map_eq_some_iff.1 ha
  have hentry : x.filed? q.cache q.key = c.find? q.key := Store.filed?_eq_find? hc q.key
  have hask : (x.ask q f).store = (x.store.poolFor q.cache c q.key q.kind q.max f).2 := by
    simp only [ask, hc]
  rw [hask, hentry]
  cases hk : c.find? q.key with
  | none =>
    refine .inr (.inr ⟨rfl, x.store.pools.size, ?_, Store.filed?_add_self hc hk ?_⟩)
    · rw [Store.poolFor_of_none hk]
    · rw [hask, Store.poolFor_of_none hk]
  | some e =>
    obtain ⟨kind, id⟩ := e
    by_cases hkind : kind = q.kind
    · subst hkind
      rw [Store.poolFor_of_same hk]
      exact .inl ⟨id, rfl, rfl, rfl⟩
    · rw [Store.poolFor_of_other hk hkind]
      exact .inr (.inl ⟨kind, id, _, rfl, hkind, rfl, rfl, rfl⟩)

theorem filed?_of_answer {id : PoolId} (ha : x.answer q f = some (.ok id)) :
    (x.ask q f).filed? q.cache q.key = some (q.kind, id) := by
  rcases answer_cases ha with ⟨id, he, heq, hs⟩ | ⟨_, _, _, _, _, heq, _⟩ | ⟨_, _, heq, he⟩
  · cases heq
    rw [filed?, hs]
    exact he
  · cases heq
  · cases heq
    exact he

theorem refused_of_answer {e : ConfigError} (ha : x.answer q f = some (.error e)) :
    e.code? = some "CONFIG-004-KEY_COLLISION" ∧ (x.ask q f).store = x.store := by
  rcases answer_cases ha with ⟨_, _, heq, _⟩ | ⟨_, _, _, _, _, heq, h⟩ | ⟨_, _, heq, _⟩
  · cases heq
  · cases heq
    exact h
  · cases heq

theorem Entered.accepted (h : x.Entered) (ha : x.answer q f = some a) :
    (∃ id, a = .ok id) ↔ ∀ e, x.first? q.cache q.key = some e → e.kind = q.kind := by
  have hfirst {kind id} (he : x.filed? q.cache q.key = some (kind, id)) :
      (∀ e, x.first? q.cache q.key = some e → e.kind = q.kind) ↔ kind = q.kind := by
    obtain ⟨q', p, hq', rfl, -⟩ := h.bound he
    simp only [hq', Option.some.injEq, forall_eq']
  rcases answer_cases ha with ⟨id, he, rfl, _⟩ | ⟨kind, id, e, he, hne, rfl, _⟩ | ⟨he, id, rfl, _⟩
  · exact iff_of_true ⟨id, rfl⟩ ((hfirst he).2 rfl)
  · exact iff_of_false nofun (mt (hfirst he).1 hne)
  · rw [h.new he]
    exact iff_of_true ⟨id, rfl⟩ nofun

end

/-! ### The result -/

theorem start_pool? (w : ω) (sizes : List Nat) (id : PoolId) :
    (start w sizes : Sharing ω ι).store.pool? id = none := rfl

theorem start_filed? (w : ω) (sizes : List Nat) (cache : CacheId) (key : CacheKey) :
    (start w sizes : Sharing ω ι).filed? cache key = none := by
  simp only [filed?, start, Store.filed?, Store.cache?, List.getElem?_toArray, List.getElem?_map]
  cases sizes[cache]? <;> rfl

theorem counted_run (w : ω) (sizes : List Nat) (ms : List (Move ω ι)) : ((start w sizes).run ms).Counted := by
  refine run_keeps ⟨fun hp => ?_, fun _ => rfl⟩ (fun _ _ h hs => h.shift hs) ms
  rw [start_pool?] at hp
  cases hp

theorem entered_run (w : ω) (sizes : List Nat) (ms : List (Move ω ι)) : ((start w sizes).run ms).Entered := by
  refine run_keeps ⟨fun _ => rfl, fun hb => ?_, fun hb => ?_⟩ (fun _ _ h hs => h.shift hs) ms <;>
    rw [start_filed?] at hb <;> cases hb

theorem bindPooled_answer {C : Type} [Host ω] [LocalAction ω ι C] (x : Sharing ω ι) {site : BindSite}
    {f : LocalFactory ω ι} {max : Option Nat} (hq : Manager.wish? C site f max x.store = some q) :
    let r := Manager.bindPooled (C := C) site f max x.store
    ∃ a, x.answer q f = some a ∧ r.1 = (a.mapError Halt.error).map (BoundAction.pooled · q.kind.style) ∧
      ∀ e, a = .error e → r.2 = { x.store with world := r.2.world } := by
  obtain ⟨i, c, hc, hr⟩ := Manager.bindPooled_of_wish hq
  simp only [answer, hc, hr, Option.map_some]
  refine ⟨_, rfl, ?_⟩
  cases hk : c.find? q.key with
  | none =>
    rw [Store.poolFor_of_none hk, Store.poolFor_of_none hk]
    exact ⟨rfl, fun e he => nomatch he⟩
  | some e =>
    obtain ⟨kind, id⟩ := e
    by_cases hkind : kind = q.kind
    · subst hkind
      rw [Store.poolFor_of_same hk, Store.poolFor_of_same hk]
      exact ⟨rfl, fun e he => nomatch he⟩
    · rw [Store.poolFor_of_other hk hkind, Store.poolFor_of_other hk hkind]
      exact ⟨rfl, fun e he => rfl⟩

/-- **One pool for each key.** Whatever is asked of the caches and done with their pools, before and
after: an entry stays, its pool keeps the size that the first question under its key gave it, no more
instances than that are idle and out, and no other key has that pool. A question is accepted if its kind is
the kind of the first one; those accepted under one key get one pool, and those under another key another
one. One that is refused leaves the store as it was. Binding a pooled action is a run of moves that asks at
most one question, and it gets what that is answered. -/
theorem one_pool_per_key (w : ω) (sizes : List Nat) (before after : List (Move ω ι)) :
    let x := (start w sizes).run before
    (∀ cache key kind id, x.filed? cache key = some (kind, id) →
      let y := x.run after
      y.filed? cache key = some (kind, id) ∧
      (∀ cache' key' kind', y.filed? cache' key' = some (kind', id) → cache' = cache ∧ key' = key) ∧
      ∃ q p, x.first? cache key = some q ∧ q.kind = kind ∧ y.store.pool? id = some p ∧
        p.pool.max = Nat.max q.max 1 ∧ p.pool.idle.length + y.live id ≤ p.pool.created ∧
        p.pool.created ≤ p.pool.max) ∧
    (∀ q f a, x.answer q f = some a →
      ((∃ id, a = .ok id) ↔ ∀ e, x.first? q.cache q.key = some e → e.kind = q.kind) ∧
      (∀ e, a = .error e →
        e.code? = some "CONFIG-004-KEY_COLLISION" ∧ (x.step (.ask q f)).store = x.store) ∧
      ∀ id, a = .ok id →
        (x.step (.ask q f)).filed? q.cache q.key = some (q.kind, id) ∧
        ∀ q' f' id', ((x.step (.ask q f)).run after).answer q' f' = some (.ok id') →
          (id' = id ↔ q'.cache = q.cache ∧ q'.key = q.key)) ∧
    ∀ (C : Type) [Host ω] [LocalAction ω ι C] (site : BindSite) (f : LocalFactory ω ι) (max : Option Nat),
      let r := Manager.bindPooled (C := C) site f max x.store
      let q? := Manager.wish? C site f max x.store
      (∃ ms, x.run ms = { x with store := r.2, asked := x.asked ++ q?.toList }) ∧
      ∀ q, q? = some q → ∃ a, x.answer q f = some a ∧
        r.1 = (a.mapError Halt.error).map (BoundAction.pooled · q.kind.style) ∧
        ∀ e, a = .error e → r.2 = { x.store with world := r.2.world } := by
  intro x
  have hentered : x.Entered := entered_run w sizes before
  refine ⟨fun cache key kind id he => ?_, fun q f a ha => ⟨hentered.accepted ha, ?_, ?_⟩, ?_⟩
  · intro y
    have hrun : y = (start w sizes).run (before ++ after) := (run_append ..).symm
    have hcounted : y.Counted := hrun ▸ counted_run w sizes _
    have hy : y.Entered := hrun ▸ entered_run w sizes _
    have hg : x.Grows y := x.grows_run after
    obtain ⟨q, p, hq, hkind, hp, hmax⟩ := hentered.bound he
    obtain ⟨p', hp', hmax'⟩ := hg.pool hp
    obtain ⟨hcount, hbound⟩ := hcounted.covered hp'
    refine ⟨hg.entry he, fun cache' key' kind' he' => hy.apart he' (hg.entry he), q, p', hq, hkind, hp',
      hmax'.trans hmax, hcount, hbound⟩
  · rintro e rfl
    exact refused_of_answer ha
  · rintro id rfl
    have he : (x.step (.ask q f)).filed? q.cache q.key = some (q.kind, id) := filed?_of_answer ha
    refine ⟨he, fun q' f' id' ha' => ?_⟩
    have hrun : ((x.step (.ask q f)).run after).step (.ask q' f') =
        (start w sizes).run (before ++ .ask q f :: (after ++ [.ask q' f'])) := by
      rw [run_append, run_cons, run_append]
      rfl
    have hz : (((x.step (.ask q f)).run after).step (.ask q' f')).Entered := hrun ▸ entered_run w sizes _
    have he' := filed?_of_answer ha'
    have hkept := (Grows.trans (grows_run _ after) (Shift.grows (shift_step _ (.ask q' f')))).entry he
    constructor
    · rintro rfl
      exact hz.apart he' hkept
    · rintro ⟨hcache, hkey⟩
      rw [hcache, hkey] at he'
      exact congrArg Prod.snd (Option.some.inj (he'.symm.trans hkept))
  · intro C _ _ site f max
    exact ⟨x.run_bindPooled site f max, fun q hq => x.bindPooled_answer hq⟩

end Sharing
end Pipeworks
