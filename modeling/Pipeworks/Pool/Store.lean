import Pipeworks.Pool.Cache
/-!
# The store

The store is a world together with the pools and the caches that the engine keeps in it. Actions of
the user see the world alone.
-/

namespace Pipeworks

/-- A pool of instances with the factory that fills it. -/
structure InstancePool (ω ι : Type) where
  pool : Pool ι
  factory : LocalFactory ω ι

structure Store (ω ι : Type) where
  world : ω
  pools : Array (InstancePool ω ι)
  caches : Array PoolCache

namespace Store
variable {ω ι : Type}

/-- A world without pools. -/
def ofWorld (w : ω) : Store ω ι := ⟨w, #[], #[]⟩

instance [Host ω] : Host (Store ω ι) where
  now s := Host.now s.world
  newRun s := let (r, w) := Host.newRun s.world; (r, { s with world := w })
  wait d s := { s with world := Host.wait d s.world }
  cpus s := Host.cpus s.world

def pool? (s : Store ω ι) (id : PoolId) : Option (InstancePool ω ι) := s.pools[id]?

def cache? (s : Store ω ι) (id : CacheId) : Option PoolCache := s.caches[id]?

/-- What a cache of the store holds under a key. -/
def filed? (s : Store ω ι) (id : CacheId) (key : CacheKey) : Option (InstanceKind × PoolId) :=
  (s.cache? id).bind (·.find? key)

def setPool (s : Store ω ι) (id : PoolId) (p : Pool ι) : Store ω ι :=
  { s with pools := s.pools.modify id ({ · with pool := p }) }

def addPool (s : Store ω ι) (p : InstancePool ω ι) : PoolId × Store ω ι :=
  (s.pools.size, { s with pools := s.pools.push p })

def addCache (s : Store ω ι) (c : PoolCache) : CacheId × Store ω ι :=
  (s.caches.size, { s with caches := s.caches.push c })

/-- The pool for a kind of instances under a key of a cache. Under a new key a new pool is made, of at
most `max` instances. -/
def poolFor (s : Store ω ι) (id : CacheId) (c : PoolCache) (key : CacheKey) (kind : InstanceKind)
    (max : Nat) (factory : LocalFactory ω ι) : Except ConfigError PoolId × Store ω ι :=
  match c.check key kind with
  | .error e => (.error e, s)
  | .ok (some pool) => (.ok pool, s)
  | .ok none =>
    let (pool, s) := s.addPool ⟨.new key.display max, factory⟩
    (.ok pool, { s with caches := s.caches.setIfInBounds id (c.add key kind pool) })

/-- Runs a factory in the world of the store. -/
def make (factory : LocalFactory ω ι) (s : Store ω ι) : Made ActionError ι × Store ω ι :=
  let (m, w) := factory s.world
  (m, { s with world := w })

/-- Borrows an instance from a pool of the store. -/
def borrow (s : Store ω ι) (id : PoolId) : Borrowed ι × Store ω ι :=
  match s.pool? id with
  | none => (.exhausted, s)
  | some p =>
    let (b, q, w) := p.pool.borrow (fun w => let (m, w) := p.factory w; (m.mapError .action, w)) s.world
    (b, { s with world := w }.setPool id q)

def release (s : Store ω ι) (id : PoolId) (i : ι) : Store ω ι :=
  match s.pool? id with
  | none => s
  | some p => s.setPool id (p.pool.release i)

def forget (s : Store ω ι) (id : PoolId) : Store ω ι :=
  match s.pool? id with
  | none => s
  | some p => s.setPool id p.pool.forget

def seed (s : Store ω ι) (id : PoolId) (i : ι) : Store ω ι :=
  match s.pool? id with
  | none => s
  | some p => s.setPool id (p.pool.seed i).2

def close (s : Store ω ι) (id : PoolId) : Store ω ι :=
  match s.pool? id with
  | none => s
  | some p => s.setPool id p.pool.close

/-! ### What a cache is asked for -/

section
variable {s : Store ω ι} {id : CacheId} {c : PoolCache} {key : CacheKey} {kind kind' : InstanceKind}
variable {max : Nat} {f : LocalFactory ω ι} {pool : PoolId}

theorem poolFor_of_none (h : c.find? key = none) : s.poolFor id c key kind max f = (.ok s.pools.size,
    { s with
      pools := s.pools.push ⟨.new key.display max, f⟩
      caches := s.caches.setIfInBounds id (c.add key kind s.pools.size) }) := by
  rw [poolFor, PoolCache.check, h]
  rfl

theorem poolFor_of_same (h : c.find? key = some (kind, pool)) :
    s.poolFor id c key kind max f = (.ok pool, s) := by
  rw [poolFor, PoolCache.check, h]
  simp only [if_true]

theorem poolFor_of_other (h : c.find? key = some (kind', pool)) (hne : kind' ≠ kind) :
    s.poolFor id c key kind max f =
      (.error (.keyCollision key.display kind'.describe kind.describe), s) := by
  rw [poolFor, PoolCache.check, h]
  simp only [hne, if_false]

variable {t : Store ω ι} {id' : CacheId} {key' : CacheKey}

theorem filed?_eq_find? (hc : s.cache? id = some c) (key : CacheKey) : s.filed? id key = c.find? key := by
  rw [filed?, hc, Option.bind_some]

theorem filed?_of_caches (h : t.caches = s.caches) : t.filed? = s.filed? := by
  funext id key
  rw [filed?, cache?, h]
  rfl

theorem filed?_add_self (hc : s.cache? id = some c) (hk : c.find? key = none)
    (ht : t.caches = s.caches.setIfInBounds id (c.add key kind pool)) :
    t.filed? id key = some (kind, pool) := by
  obtain ⟨hlt, -⟩ := Array.getElem?_eq_some_iff.1 hc
  rw [filed?, cache?, ht, Array.getElem?_setIfInBounds_self_of_lt hlt, Option.bind_some, PoolCache.find?,
    PoolCache.add, List.lookup_append, ← PoolCache.find?, hk, Option.none_or, List.lookup_cons_self]

theorem filed?_add_ne (hc : s.cache? id = some c)
    (ht : t.caches = s.caches.setIfInBounds id (c.add key kind pool)) (hne : ¬(id = id' ∧ key = key')) :
    t.filed? id' key' = s.filed? id' key' := by
  by_cases hid : id = id'
  · subst hid
    obtain ⟨hlt, -⟩ := Array.getElem?_eq_some_iff.1 hc
    have hkey : key' ≠ key := fun h => hne ⟨rfl, h.symm⟩
    rw [filed?, cache?, ht, Array.getElem?_setIfInBounds_self_of_lt hlt, Option.bind_some,
      filed?_eq_find? hc, PoolCache.find?, PoolCache.add, List.lookup_append, List.lookup_cons,
      beq_false_of_ne hkey, List.lookup_nil, Option.or_none]
    rfl
  · rw [filed?, cache?, ht, Array.getElem?_setIfInBounds_ne hid]
    rfl

end

/-! ### Changing one pool -/

section
variable {s : Store ω ι} {id : PoolId} {p : InstancePool ω ι} {q r : Pool ι}

theorem pool?_setPool_self (h : s.pool? id = some p) :
    (s.setPool id q).pool? id = some { p with pool := q } := by
  simp only [pool?, setPool, Array.getElem?_modify, if_true] at h ⊢
  rw [h, Option.map_some]

theorem pool?_setPool_ne {i : PoolId} (h : i ≠ id) : (s.setPool id q).pool? i = s.pool? i := by
  rw [pool?, setPool, Array.getElem?_modify, if_neg (Ne.symm h)]
  rfl

theorem setPool_setPool : (s.setPool id q).setPool id r = s.setPool id r := by
  simp only [setPool, mk.injEq, true_and, and_true]
  refine Array.ext_getElem? fun i => ?_
  simp only [Array.getElem?_modify]
  split <;> cases s.pools[i]? <;> rfl

theorem setPool_self (h : s.pool? id = some p) : s.setPool id p.pool = s := by
  have hpools : s.pools.modify id ({ · with pool := p.pool }) = s.pools := by
    refine Array.ext_getElem? fun i => ?_
    rw [Array.getElem?_modify]
    by_cases hi : id = i
    · subst hi
      rw [pool?] at h
      rw [if_pos rfl, h, Option.map_some]
    · rw [if_neg hi]
  rw [setPool, hpools]

/-- The pools behind a change: those that were there, and the one that is new in its place. -/
theorem mem_setPool {x : InstancePool ω ι} (hx : x ∈ (s.setPool id q).pools) :
    x ∈ s.pools ∨ ∃ p, s.pool? id = some p ∧ x = { p with pool := q } := by
  obtain ⟨i, hi⟩ := Array.mem_iff_getElem?.1 hx
  rw [setPool, Array.getElem?_modify] at hi
  by_cases hid : id = i
  · subst hid
    rw [if_pos rfl] at hi
    obtain ⟨p, hp, rfl⟩ := Option.map_eq_some_iff.1 hi
    exact .inr ⟨p, hp, rfl⟩
  · rw [if_neg hid] at hi
    exact .inl (Array.mem_iff_getElem?.2 ⟨i, hi⟩)

theorem mem_of_pool? (h : s.pool? id = some p) : p ∈ s.pools := Array.mem_iff_getElem?.2 ⟨id, h⟩

end

end Store
end Pipeworks
