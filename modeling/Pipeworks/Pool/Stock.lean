import Pipeworks.Pool.Store
/-!
# Stocked stores

What pooled actions leave behind that were bound under keys of a cache (`Store.Stocked`): a key that had
nothing got a pool of its own, with an instance in it, and a pool that was there took in an instance for
each of its keys, as long as it had room. Nothing else of the store has changed, so that stocking twice
under different keys is stocking once under all of them (`Stocked.trans`).
-/

namespace Pipeworks

namespace Pool
variable {α : Type} {p q r : Pool α} {m n : Nat}

/-- How many more instances a pool takes in. -/
def room (p : Pool α) : Nat := if p.closed then 0 else p.max - p.created

/-- The pool was offered `n` instances. It took in the first of them, as many as it had room for. -/
def Stocked (p : Pool α) (n : Nat) (q : Pool α) : Prop :=
  ∃ added : List α, added.length = min n p.room ∧
    q = { p with idle := p.idle ++ added, created := p.created + added.length }

/-- An instance more takes up room, as long as there is some. -/
theorem room_more (p : Pool α) (idle : List α) (n : Nat) :
    { p with idle := idle, created := p.created + n }.room = p.room - n := by
  simp only [room]
  split
  · exact (Nat.zero_sub n).symm
  · exact (Nat.sub_sub _ _ _).symm

theorem Stocked.refl (p : Pool α) : p.Stocked 0 p :=
  ⟨[], (Nat.zero_min _).symm, by rw [List.append_nil]; rfl⟩

theorem Stocked.trans (h : p.Stocked m q) (h' : q.Stocked n r) : p.Stocked (m + n) r := by
  obtain ⟨added, hadded, rfl⟩ := h
  obtain ⟨more, hmore, rfl⟩ := h'
  refine ⟨added ++ more, ?_, ?_⟩
  · rw [room_more] at hmore
    rw [List.length_append]
    omega
  · simp only [List.append_assoc, List.length_append, Nat.add_assoc]

theorem stocked_seed (p : Pool α) (a : α) : p.Stocked 1 (p.seed a).2 := by
  by_cases h : p.closed = true ∨ p.max ≤ p.created
  · have hroom : p.room = 0 := by
      rcases h with h | h
      · rw [room, if_pos h]
      · rw [room, Nat.sub_eq_zero_of_le h, ite_self]
    rw [seed_of_no_room h]
    exact ⟨[], by rw [hroom]; rfl, by rw [List.append_nil]; rfl⟩
  · rw [not_or, Bool.not_eq_true, Nat.not_le] at h
    obtain ⟨hopen, hlt⟩ := h
    rw [seed_of_room hopen hlt]
    refine ⟨[a], ?_, rfl⟩
    rw [room, hopen, if_neg Bool.false_ne_true, List.length_singleton]
    omega

/-- The pool is open and has instances, all of them idle. -/
structure Started (p : Pool α) : Prop where
  opened : p.closed = false
  counted : p.created = p.idle.length
  stocked : 0 < p.created
  bounded : p.created ≤ p.max

theorem started_seed_new (name : String) (max : Nat) (a : α) : ((new name max).seed a).2.Started := by
  have hmax : 0 < Nat.max max 1 := Nat.lt_of_lt_of_le Nat.zero_lt_one (Nat.le_max_right max 1)
  rw [seed_of_room rfl hmax]
  exact ⟨rfl, rfl, Nat.zero_lt_one, hmax⟩

theorem Started.stock (h : p.Started) (hq : p.Stocked n q) : q.Started := by
  obtain ⟨hopen, hcount, hsome, hmax⟩ := h
  obtain ⟨added, hadded, rfl⟩ := hq
  rw [room, hopen, if_neg Bool.false_ne_true] at hadded
  refine ⟨hopen, ?_, Nat.lt_of_lt_of_le hsome (Nat.le_add_right _ _), ?_⟩
  · rw [List.length_append, hcount]
  · show p.created + added.length ≤ p.max
    omega

end Pool

namespace PoolCache
variable {c : PoolCache} {added more : List (CacheKey × InstanceKind × PoolId)} {key : CacheKey}

def addAll (c : PoolCache) (added : List (CacheKey × InstanceKind × PoolId)) : PoolCache :=
  { c with entries := c.entries ++ added }

theorem addAll_nil (c : PoolCache) : c.addAll [] = c := by
  rw [addAll, List.append_nil]

theorem addAll_addAll : (c.addAll added).addAll more = c.addAll (added ++ more) := by
  simp only [addAll, List.append_assoc]

theorem find?_addAll (c : PoolCache) (added : List (CacheKey × InstanceKind × PoolId)) (key : CacheKey) :
    (c.addAll added).find? key = (c.find? key).or (added.lookup key) :=
  List.lookup_append

theorem lookup_eq_none_of_notMem (h : key ∉ added.map (·.1)) : added.lookup key = none := by
  rw [List.lookup_eq_none_iff]
  intro e he
  rw [bne_iff_ne]
  rintro rfl
  exact h (List.mem_map_of_mem he)

theorem find?_addAll_of_notMem (h : key ∉ added.map (·.1)) : (c.addAll added).find? key = c.find? key := by
  rw [find?_addAll, lookup_eq_none_of_notMem h, Option.or_none]

theorem check_congr {c' : PoolCache} (h : c'.find? key = c.find? key) (kind : InstanceKind) :
    c'.check key kind = c.check key kind := by
  rw [check, check, h]

end PoolCache

namespace Store
variable {ω ι : Type} {cache : Option CacheId} {keys ks ls : List CacheKey} {key : CacheKey}
  {s t u : Store ω ι}

/-- What there is under a key, if there is a cache to look in. -/
def placed? (s : Store ω ι) (cache : Option CacheId) (key : CacheKey) : Option (InstanceKind × PoolId) :=
  cache.bind (s.filed? · key)

/-- How many of the keys lead to a pool. -/
def leading (s : Store ω ι) (cache : Option CacheId) (keys : List CacheKey) (id : PoolId) : Nat :=
  keys.countP fun key => (s.placed? cache key).map (·.2) = some id

/-- How many of the keys have nothing. -/
def vacant (s : Store ω ι) (cache : Option CacheId) (keys : List CacheKey) : Nat :=
  keys.countP fun key => (s.placed? cache key).isNone

section
variable {p : InstancePool ω ι} {id id' : PoolId} {i : ι}

theorem caches_seed : (s.seed id i).caches = s.caches := by
  unfold seed
  split <;> rfl

theorem size_seed : (s.seed id i).pools.size = s.pools.size := by
  unfold seed
  split
  · rfl
  · exact Array.size_modify

theorem pool?_seed_self (h : s.pool? id = some p) :
    (s.seed id i).pool? id = some { p with pool := (p.pool.seed i).2 } := by
  rw [seed, h]
  exact pool?_setPool_self h

theorem pool?_seed_ne (h : id' ≠ id) : (s.seed id i).pool? id' = s.pool? id' := by
  unfold seed
  split
  · rfl
  · exact pool?_setPool_ne h

end

/-- Pooled actions were bound in the store under these keys. -/
structure Stocked (cache : Option CacheId) (keys : List CacheKey) (s t : Store ω ι) : Prop where
  /-- No cache comes or goes. -/
  size : t.caches.size = s.caches.size
  /-- A cache keeps its entries. The one that was asked has a new one, of a new pool, for each key that it
  did not have, and no two of them share one. -/
  caches : ∀ id c, s.cache? id = some c → ∃ added, t.cache? id = some (c.addAll added) ∧
    added.map (·.1) = (if cache = some id then keys.filter (!c.contains ·) else []) ∧
    (∀ e ∈ added, s.pools.size ≤ e.2.2 ∧ e.2.2 < t.pools.size) ∧ (added.map (·.2.2)).Nodup
  /-- A pool was offered an instance for each of its keys. -/
  pools : ∀ id p, s.pool? id = some p → ∃ q, t.pool? id = some { p with pool := q } ∧
    p.pool.Stocked (s.leading cache keys id) q
  made : t.pools.size = s.pools.size + s.vacant cache keys
  fresh : ∀ id p, s.pools.size ≤ id → t.pool? id = some p → p.pool.Started

namespace Stocked

theorem of_same (hp : t.pools = s.pools) (hc : t.caches = s.caches) : Stocked cache [] s t where
  size := by rw [hc]
  caches id c h := by
    refine ⟨[], ?_, ?_, fun e he => absurd he List.not_mem_nil, List.nodup_nil⟩
    · rw [PoolCache.addAll_nil, cache?, hc]
      exact h
    · rw [List.filter_nil, ite_self]
      rfl
  pools id p h := by
    refine ⟨p.pool, ?_, .refl _⟩
    rw [pool?, hp]
    exact h
  made := by rw [hp]; rfl
  fresh id p hle h := by
    rw [pool?, hp, Array.getElem?_eq_none hle] at h
    cases h

theorem pools_le (h : Stocked cache keys s t) : s.pools.size ≤ t.pools.size := by
  rw [h.made]
  exact Nat.le_add_right _ _

theorem same (h : Stocked cache [] s t) : t.pools = s.pools ∧ t.caches = s.caches := by
  refine ⟨Array.ext_getElem? fun id => ?_, Array.ext_getElem? fun id => ?_⟩
  · cases hp : s.pools[id]? with
    | none =>
      have hle : t.pools.size ≤ id := by
        rw [h.made]
        exact Array.getElem?_eq_none_iff.1 hp
      exact Array.getElem?_eq_none hle
    | some p =>
      obtain ⟨q, hq, added, hadded, rfl⟩ := h.pools id p hp
      have hnil : added = [] := List.eq_nil_of_length_eq_zero (hadded.trans (Nat.zero_min _))
      subst hnil
      rw [pool?] at hq
      rw [hq, List.append_nil]
      rfl
  · cases hc : s.caches[id]? with
    | none =>
      have hle : t.caches.size ≤ id := by
        rw [h.size]
        exact Array.getElem?_eq_none_iff.1 hc
      exact Array.getElem?_eq_none hle
    | some c =>
      obtain ⟨added, ht, hkeys, -⟩ := h.caches id c hc
      rw [List.filter_nil, ite_self, List.map_eq_nil_iff] at hkeys
      rw [hkeys, PoolCache.addAll_nil] at ht
      exact ht

/-- A cache that a kind of instances was welcome in under a key still takes it there, and has the pool for
it that it had, unless the key had nothing and a pooled action was bound under it. -/
theorem check (h : Stocked cache keys s t) {id : CacheId} {c : PoolCache} {kind : InstanceKind}
    {found : Option PoolId} (hc : s.cache? id = some c) (hfound : c.check key kind = .ok found) :
    ∃ c', t.cache? id = some c' ∧ (c'.check key kind = .ok found ∨
      found = none ∧ cache = some id ∧ key ∈ keys ∧
        ∃ kind' pool, c'.find? key = some (kind', pool) ∧ s.pools.size ≤ pool) := by
  obtain ⟨added, ht, hkeys, hnew, -⟩ := h.caches id c hc
  refine ⟨_, ht, ?_⟩
  cases hk : c.find? key with
  | some e =>
    left
    rw [← hfound, PoolCache.check_congr]
    rw [PoolCache.find?_addAll, hk, Option.some_or]
  | none =>
    cases hl : added.lookup key with
    | none =>
      left
      rw [← hfound, PoolCache.check_congr]
      rw [PoolCache.find?_addAll, hl, Option.or_none]
    | some e =>
      right
      have hmem : (key, e) ∈ added := by
        obtain ⟨l, l', rfl, -⟩ := List.lookup_eq_some_iff.1 hl
        exact List.mem_append_right l List.mem_cons_self
      have hkey : key ∈ added.map (·.1) := List.mem_map_of_mem hmem
      rw [PoolCache.check, hk] at hfound
      rw [hkeys] at hkey
      split at hkey
      · rename_i hid
        refine ⟨(Except.ok.inj hfound).symm, hid, (List.mem_filter.1 hkey).1, e.1, e.2, ?_, (hnew _ hmem).1⟩
        rw [PoolCache.find?_addAll, hk, hl, Option.none_or]
      · cases hkey

theorem placed?_eq (h : Stocked cache keys s t) (hkey : key ∉ keys) :
    t.placed? cache key = s.placed? cache key := by
  cases cache with
  | none => rfl
  | some id =>
    show t.filed? id key = s.filed? id key
    cases hc : s.cache? id with
    | none =>
      have hle : t.caches.size ≤ id := by
        rw [h.size]
        exact Array.getElem?_eq_none_iff.1 hc
      rw [filed?, filed?, hc, cache?, Array.getElem?_eq_none hle]
    | some c =>
      obtain ⟨added, ht, hkeys, -⟩ := h.caches id c hc
      rw [filed?_eq_find? hc, filed?_eq_find? ht]
      refine PoolCache.find?_addAll_of_notMem fun hmem => hkey ?_
      rw [hkeys, if_pos rfl] at hmem
      exact (List.mem_filter.1 hmem).1

/-- Of keys that nothing was bound under as many are vacant as before, and as many lead to a pool. -/
theorem countP_eq (h : Stocked cache ks s t) (hd : ∀ key ∈ ls, key ∉ ks)
    (f : Option (InstanceKind × PoolId) → Bool) :
    ls.countP (fun key => f (t.placed? cache key)) = ls.countP fun key => f (s.placed? cache key) :=
  List.countP_congr fun key hkey => by rw [h.placed?_eq (hd key hkey)]

theorem trans (h : Stocked cache ks s t) (h' : Stocked cache ls t u) (hd : ∀ key ∈ ls, key ∉ ks) :
    Stocked cache (ks ++ ls) s u where
  size := h'.size.trans h.size
  caches id c hc := by
    obtain ⟨added, ht, hadded, hnew, hdistinct⟩ := h.caches id c hc
    obtain ⟨more, hu, hmore, hnew', hdistinct'⟩ := h'.caches id _ ht
    refine ⟨added ++ more, ?_, ?_, fun e he => ?_, ?_⟩
    · rw [hu, PoolCache.addAll_addAll]
    · rw [List.map_append, hadded, hmore]
      split
      · rename_i hid
        rw [List.filter_append]
        congr 1
        -- The new entries of the cache have none of the later keys.
        refine List.filter_congr fun key hkey => ?_
        rw [PoolCache.contains, PoolCache.contains, PoolCache.find?_addAll_of_notMem]
        rw [hadded, if_pos hid]
        exact fun hmem => hd key hkey ((List.mem_filter.1 hmem).1)
      · rfl
    · rcases List.mem_append.1 he with he | he
      · exact ⟨(hnew e he).1, Nat.lt_of_lt_of_le (hnew e he).2 h'.pools_le⟩
      · exact ⟨Nat.le_trans h.pools_le (hnew' e he).1, (hnew' e he).2⟩
    · -- The earlier pools are among those that were there when the later ones were made.
      rw [List.map_append, List.nodup_append]
      refine ⟨hdistinct, hdistinct', fun pool hpool pool' hpool' => ?_⟩
      obtain ⟨e, he, rfl⟩ := List.mem_map.1 hpool
      obtain ⟨e', he', rfl⟩ := List.mem_map.1 hpool'
      exact Nat.ne_of_lt (Nat.lt_of_lt_of_le (hnew e he).2 (hnew' e' he').1)
  pools id p hp := by
    obtain ⟨q, ht, hq⟩ := h.pools id p hp
    obtain ⟨r, hu, hr⟩ := h'.pools id _ ht
    refine ⟨r, hu, ?_⟩
    have hcount : t.leading cache ls id = s.leading cache ls id :=
      h.countP_eq hd fun e => e.map (·.2) = some id
    rw [hcount] at hr
    rw [leading, List.countP_append]
    exact hq.trans hr
  made := by
    have hcount : t.vacant cache ls = s.vacant cache ls := h.countP_eq hd (·.isNone)
    rw [h'.made, h.made, hcount, vacant, vacant, vacant, List.countP_append, Nat.add_assoc]
  fresh id p hle hp := by
    rcases Nat.lt_or_ge id t.pools.size with hlt | hge
    · have ht : t.pool? id = some t.pools[id] := Array.getElem?_eq_getElem hlt
      obtain ⟨q, hu, hq⟩ := h'.pools id _ ht
      rw [hu] at hp
      cases hp
      exact (h.fresh id _ hle ht).stock hq
    · exact h'.fresh id p hge hp

/-! ### One key -/

section
variable {kind : InstanceKind} {id : PoolId} {i : ι}

theorem of_known (hk : s.placed? cache key = some (kind, id)) : Stocked cache [key] s (s.seed id i) where
  size := by rw [caches_seed]
  caches id' c hc := by
    refine ⟨[], ?_, ?_, fun e he => absurd he List.not_mem_nil, List.nodup_nil⟩
    · rw [PoolCache.addAll_nil, cache?, caches_seed]
      exact hc
    · split
      · rename_i hid
        subst hid
        rw [placed?, Option.bind_some, filed?_eq_find? hc] at hk
        simp only [List.filter, PoolCache.contains, hk, Option.isSome_some, Bool.not_true, List.map_nil]
      · rfl
  pools id' p hp := by
    rw [leading, List.countP_singleton, hk, Option.map_some]
    by_cases hid : id = id'
    · subst hid
      rw [pool?_seed_self hp]
      exact ⟨_, rfl, by rw [if_pos (decide_eq_true rfl)]; exact Pool.stocked_seed p.pool i⟩
    · have hne : some id ≠ some id' := fun h => hid (Option.some.inj h)
      rw [pool?_seed_ne (Ne.symm hid)]
      refine ⟨p.pool, hp, ?_⟩
      rw [decide_eq_false hne]
      exact .refl _
  made := by
    rw [size_seed, vacant, List.countP_singleton, hk]
    rfl
  fresh id' p hle hp := by
    have hlt : id' < (s.seed id i).pools.size := (Array.getElem?_eq_some_iff.1 hp).1
    rw [size_seed] at hlt
    exact absurd hle (Nat.not_le.2 hlt)

theorem of_new (kind : InstanceKind) {p : InstancePool ω ι} {name : String} {max : Nat}
    (hk : s.placed? cache key = none) (hp : p.pool = .new name max) (hpools : t.pools = s.pools.push p)
    (hsize : t.caches.size = s.caches.size)
    (hcaches : ∀ id c, s.cache? id = some c →
      t.cache? id = some (if cache = some id then c.add key kind s.pools.size else c)) :
    Stocked cache [key] s (t.seed s.pools.size i) where
  size := by rw [caches_seed, hsize]
  caches id c hc := by
    rw [cache?, caches_seed]
    refine ⟨if cache = some id then [(key, kind, s.pools.size)] else [], ?_, ?_, fun e he => ?_, ?_⟩
    · refine (hcaches id c hc).trans ?_
      split
      · rfl
      · rw [PoolCache.addAll_nil]
    · split
      · rename_i hid
        subst hid
        rw [placed?, Option.bind_some, filed?_eq_find? hc] at hk
        simp only [List.filter, PoolCache.contains, hk, Option.isSome_none, Bool.not_false, List.map_cons,
          List.map_nil]
      · rfl
    · split at he
      · obtain rfl := List.mem_singleton.1 he
        rw [size_seed, hpools, Array.size_push]
        exact ⟨Nat.le_refl _, Nat.lt_succ_self _⟩
      · cases he
    · split
      · exact List.nodup_cons.2 ⟨List.not_mem_nil, List.nodup_nil⟩
      · exact List.nodup_nil
  pools id p hp := by
    have hlt : id < s.pools.size := (Array.getElem?_eq_some_iff.1 hp).1
    refine ⟨p.pool, ?_, ?_⟩
    · rw [pool?_seed_ne (Nat.ne_of_lt hlt), pool?, hpools, Array.getElem?_push_lt hlt,
        ← Array.getElem?_eq_getElem hlt]
      exact hp
    · rw [leading, List.countP_singleton, hk]
      exact .refl _
  made := by
    rw [size_seed, hpools, Array.size_push, vacant, List.countP_singleton, hk]
    rfl
  fresh id q hle hq := by
    have hnew : t.pool? s.pools.size = some p := by
      rw [pool?, hpools, Array.getElem?_push_size]
    have hlt : id < (t.seed s.pools.size i).pools.size := (Array.getElem?_eq_some_iff.1 hq).1
    rw [size_seed, hpools, Array.size_push] at hlt
    obtain rfl : id = s.pools.size := Nat.le_antisymm (Nat.le_of_lt_succ hlt) hle
    rw [pool?_seed_self hnew, hp] at hq
    cases hq
    exact Pool.started_seed_new name max i

end

end Stocked
end Store
end Pipeworks
