import Pipeworks.Lifecycle.Bound
/-!
# Managers

A manager knows where the instances of an action come from and binds the action to a step. Binding a
pooled action builds one instance first: it shows whether instances can be built and reset, and it
goes into the pool if there is room.
-/

namespace Pipeworks

/-- An end of a call without an answer. -/
inductive Halt (ε : Type) where
  | error (e : ε)
  | panicked (text : String)

inductive Manager (ω ι C : Type) where
  | shared (action : Action ω C)
  | perRun (factory : LocalFactory ω ι)
  | pooled (factory : LocalFactory ω ι) (max : Option Nat)

/-- The place of a step that an action is bound to, and where its pool comes from. -/
structure BindSite where
  pipeline : String
  phase : Phase
  index : Nat
  label : Option String
  cache : Option CacheId
  defaultPoolMax : Option Nat

namespace BindSite

def stepName (b : BindSite) : String := b.phase.stepName b.index b.label

def cacheKey (b : BindSite) : CacheKey := ⟨b.pipeline, b.phase, b.index, b.label⟩

end BindSite

namespace Manager
variable {ω ι C : Type}

def lifecycle : Manager ω ι C → Lifecycle
  | shared _ => .shared
  | perRun _ => .perRun
  | pooled _ max => .pooled max

/-- A manager for instances. A factory cannot serve one shared action. -/
def ofFactory (lifecycle : Lifecycle) (factory : LocalFactory ω ι) :
    Except ConfigError (Manager ω ι C) :=
  match lifecycle with
  | .pooled max => .ok (.pooled factory max)
  | .perRun => .ok (.perRun factory)
  | .shared =>
    .error (.invalidValue "lifecycle" "a local action factory needs per_run or pooled, not shared")

/-- The pool for instances of a kind at a site: from the cache of the site, or one of its own. -/
def poolAt [Host ω] (site : BindSite) (kind : InstanceKind) (max : Option Nat)
    (factory : LocalFactory ω ι) (s : Store ω ι) : Except ConfigError PoolId × Store ω ι :=
  let max := max <|> site.defaultPoolMax
  match site.cache.bind fun id => (s.cache? id).map (id, ·) with
  | some (id, c) => s.poolFor id c site.cacheKey kind (max.getD c.defaultMax) factory
  | none =>
    let (pool, s) :=
      s.addPool ⟨.new site.cacheKey.display (max.getD (defaultPoolMax s.world)), factory⟩
    (.ok pool, s)

def bindPooled [Host ω] [LocalAction ω ι C] (site : BindSite)
    (factory : LocalFactory ω ι) (max : Option Nat) (s : Store ω ι) :
    Except (Halt ConfigError) (BoundAction ω ι C) × Store ω ι :=
  match s.make factory with
  | (.refused e, s) => (.error (.error (.construction site.stepName e)), s)
  | (.panicked t, s) => (.error (.panicked t), s)
  | (.made i, s) =>
    let typeName := LocalAction.typeName ω C i
    let style := LocalAction.style ω C i
    if !LocalAction.supportsReset ω C i then
      (.error (.error (.notResettable site.stepName typeName)), s)
    else
      match poolAt site ⟨typeName, style, LocalAction.contextType ω ι C⟩ max factory s with
      | (.error e, s) => (.error (.error e), s)
      | (.ok pool, s) => (.ok (.pooled pool style), s.seed pool i)

def bind [Host ω] [LocalAction ω ι C] (m : Manager ω ι C) (site : BindSite) (s : Store ω ι) :
    Except (Halt ConfigError) (BoundAction ω ι C) × Store ω ι :=
  match m with
  | shared action => (.ok (.shared action), s)
  | perRun factory => (.ok (.perRun factory), s)
  | pooled factory max => bindPooled site factory max s

end Manager
end Pipeworks
