import Pipeworks.Phase
import Pipeworks.Pool.Basic
/-!
# Caches of pools

A cache holds pools under keys that name a step of a pipeline, so that pipelines built apart share
the instances of one action. What is bound under a key first decides what may be bound there later.
-/

namespace Pipeworks

structure CacheKey where
  pipeline : String
  phase : Phase
  index : Nat
  name : Option String
  deriving DecidableEq

def CacheKey.display (k : CacheKey) : String :=
  s!"{k.pipeline}:{k.phase.name}:{k.index}" ++ k.name.elim "" (":" ++ ·)

/-- What the instances of a pool are: their type, their style and the contexts they work on. -/
structure InstanceKind where
  typeName : String
  style : InvokeStyle
  contextType : String
  deriving DecidableEq

def InstanceKind.describe (k : InstanceKind) : String := s!"{k.typeName} ({k.style.name})"

/-- The place of a pool in the store. -/
abbrev PoolId := Nat

/-- The place of a cache in the store. -/
abbrev CacheId := Nat

structure PoolCache where
  defaultMax : Nat
  entries : List (CacheKey × InstanceKind × PoolId)

namespace PoolCache

/-- An empty cache. Pools without a size of their own get `defaultMax`, at least one. -/
def new (defaultMax : Nat) : PoolCache := ⟨Nat.max defaultMax 1, []⟩

def find? (c : PoolCache) (key : CacheKey) : Option (InstanceKind × PoolId) := c.entries.lookup key

def contains (c : PoolCache) (key : CacheKey) : Bool := (c.find? key).isSome

def keys (c : PoolCache) : List CacheKey := c.entries.map (·.1)

def size (c : PoolCache) : Nat := c.entries.length

/-- The pool that a kind of instances finds under a key, if there is one. A pool of another kind there
is an error. -/
def check (c : PoolCache) (key : CacheKey) (kind : InstanceKind) : Except ConfigError (Option PoolId) :=
  match c.find? key with
  | some (existing, pool) =>
    if existing = kind then .ok (some pool)
    else .error (.keyCollision key.display existing.describe kind.describe)
  | none => .ok none

def add (c : PoolCache) (key : CacheKey) (kind : InstanceKind) (pool : PoolId) : PoolCache :=
  { c with entries := c.entries ++ [(key, kind, pool)] }

def describe (c : PoolCache) : String :=
  s!"ActionPoolCache \x7b pools: {c.size}, default_max: {c.defaultMax} \x7d"

end PoolCache
end Pipeworks
