import Pipeworks.Lifecycle.Manager
/-!
# Recorded instances

A recorded instance acts as the instance it is and keeps what was done to it. To the engine the record
makes no difference: what a bound action does, or the binding of one, is the same when the records are
left out (`erase_apply`, `erase_bind`).
-/

namespace Pipeworks

/-- What is done to an instance. -/
inductive Deed where
  | applied
  | reset (r : ResetOutcome)

/-- Behind every application there is a successful reset. -/
def Deed.Clean (ds : List Deed) : Prop := ∀ l r, ds = l ++ .applied :: r → .reset .done ∈ r

/-- An instance and all that was done to it. -/
structure Recorded (ι : Type) where
  item : ι
  deeds : List Deed

namespace Recorded
variable {ω ι C : Type}

def new (i : ι) : Recorded ι := ⟨i, []⟩

def factory (f : LocalFactory ω ι) : LocalFactory ω (Recorded ι) := fun w =>
  let (m, w) := f w
  (m.map new, w)

instance [LocalAction ω ι C] : LocalAction ω (Recorded ι) C where
  contextType := LocalAction.contextType ω ι C
  apply i ctx control w :=
    let (a, item) := LocalAction.apply i.item ctx control w
    (a, ⟨item, i.deeds ++ [.applied]⟩)
  reset i w :=
    let (r, item, w) := LocalAction.reset C i.item w
    (r, ⟨item, i.deeds ++ [.reset r]⟩, w)
  supportsReset i := LocalAction.supportsReset ω C i.item
  typeName i := LocalAction.typeName ω C i.item
  style i := LocalAction.style ω C i.item

variable [LocalAction ω ι C] {i j : Recorded ι} {w w' : ω}

theorem apply_eq (ctx : C) (control : Control C) : LocalAction.apply i ctx control w =
    ((LocalAction.apply i.item ctx control w).1,
      (⟨(LocalAction.apply i.item ctx control w).2, i.deeds ++ [.applied]⟩ : Recorded ι)) :=
  rfl

variable (C) in
theorem reset_eq : LocalAction.reset C i w =
    ((LocalAction.reset C i.item w).1,
      (⟨(LocalAction.reset C i.item w).2.1, i.deeds ++ [.reset (LocalAction.reset C i.item w).1]⟩ :
        Recorded ι), (LocalAction.reset C i.item w).2.2) :=
  rfl

theorem supportsReset_eq :
    LocalAction.supportsReset ω C i = LocalAction.supportsReset ω C i.item := rfl

theorem typeName_eq : LocalAction.typeName ω C i = LocalAction.typeName ω C i.item := rfl

theorem style_eq : LocalAction.style ω C i = LocalAction.style ω C i.item := rfl

variable (ω ι C) in
theorem contextType_eq :
    LocalAction.contextType ω (Recorded ι) C = LocalAction.contextType ω ι C := rfl

theorem deeds_of_apply {ctx : C} {control : Control C} {a : Applied ω C}
    (h : LocalAction.apply i ctx control w = (a, j)) : j.deeds = i.deeds ++ [.applied] := by
  obtain ⟨-, rfl⟩ := Prod.mk.inj h
  rfl

variable (C) in
theorem deeds_of_reset {r : ResetOutcome} (h : LocalAction.reset C i w = (r, j, w')) :
    j.deeds = i.deeds ++ [.reset r] := by
  obtain ⟨rfl, hj⟩ := Prod.mk.inj h
  obtain ⟨rfl, -⟩ := Prod.mk.inj hj
  rfl

end Recorded

/-- The manager whose instances are recorded. -/
def Manager.recorded {ω ι C : Type} : Manager ω ι C → Manager ω (Recorded ι) C
  | .shared action => .shared action
  | .perRun factory => .perRun (Recorded.factory factory)
  | .pooled factory max => .pooled (Recorded.factory factory) max

/-! ### Without the records -/

namespace Pool
variable {α β : Type} (f : α → β) (p : Pool α)

/-- The pool with other instances in the places of its own. -/
def map : Pool β :=
  { name := p.name, max := p.max, idle := p.idle.map f, created := p.created, closed := p.closed }

end Pool

def Take.map {α β : Type} (f : α → β) : Take α → Take β
  | closed => closed
  | idle a rest => idle (f a) (rest.map f)
  | reserved rest => reserved (rest.map f)
  | exhausted => exhausted

def Borrowed.map {α β : Type} (f : α → β) : Borrowed α → Borrowed β
  | item a => item (f a)
  | refused e => refused e
  | panicked t => panicked t
  | exhausted => exhausted

namespace Pool
variable {α β : Type} {f : α → β} {p : Pool α}

theorem take_map : (p.map f).take = p.take.map f := by
  obtain ⟨name, max, idle, created, closed⟩ := p
  cases closed with
  | true => rfl
  | false =>
    cases idle with
    | cons a rest => rfl
    | nil =>
      rcases Nat.lt_or_ge created max with h | h
      · rw [take_of_lt rfl rfl h, take_of_lt rfl rfl h]
        rfl
      · rw [take_of_le rfl rfl h, take_of_le rfl rfl h]
        rfl

theorem finish_map (m : Made ActionError α) :
    (p.map f).finish ((m.map f).mapError .action) =
      ((p.finish (m.mapError .action)).1.map f, (p.finish (m.mapError .action)).2.map f) := by
  cases m <;> rfl

theorem release_map (a : α) : (p.map f).release (f a) = (p.release a).map f := by
  by_cases h : p.closed = true
  · simp only [release, map, forget, h, if_true]
  · simp [release, map, h]

theorem seed_map (a : α) : ((p.map f).seed (f a)).2 = (p.seed a).2.map f := by
  by_cases h : p.closed = true ∨ p.max ≤ p.created
  · simp only [seed, map, h, if_true]
  · simp only [seed, map, h, if_false, List.map_append, List.map_cons, List.map_nil]

end Pool

variable {ω ι C : Type}

def Recorded.eraseFactory (f : LocalFactory ω (Recorded ι)) : LocalFactory ω ι := fun w =>
  let (m, w) := f w
  (m.map item, w)

theorem Recorded.eraseFactory_factory (f : LocalFactory ω ι) :
    Recorded.eraseFactory (Recorded.factory f) = f := by
  funext w
  rcases hm : f w with ⟨m, w'⟩
  simp only [eraseFactory, factory, hm]
  cases m <;> rfl

def InstancePool.erase (p : InstancePool ω (Recorded ι)) : InstancePool ω ι :=
  ⟨p.pool.map Recorded.item, Recorded.eraseFactory p.factory⟩

namespace Store
variable {s : Store ω (Recorded ι)} {id : PoolId}

def erase (s : Store ω (Recorded ι)) : Store ω ι := ⟨s.world, s.pools.map InstancePool.erase, s.caches⟩

theorem pool?_erase : s.erase.pool? id = (s.pool? id).map InstancePool.erase := Array.getElem?_map

theorem setPool_erase (q : Pool (Recorded ι)) :
    s.erase.setPool id (q.map Recorded.item) = (s.setPool id q).erase := by
  simp only [erase, setPool, mk.injEq, true_and, and_true]
  refine Array.ext_getElem? fun k => ?_
  simp only [Array.getElem?_modify, Array.getElem?_map]
  split <;> cases s.pools[k]? <;> rfl

theorem release_erase (i : Recorded ι) : s.erase.release id i.item = (s.release id i).erase := by
  rw [release, release, pool?_erase]
  cases s.pool? id with
  | none => rfl
  | some p =>
    show s.erase.setPool id ((p.pool.map _).release i.item) = _
    rw [Pool.release_map, setPool_erase]

theorem forget_erase : s.erase.forget id = (s.forget id).erase := by
  rw [forget, forget, pool?_erase]
  cases s.pool? id with
  | none => rfl
  | some p => exact setPool_erase p.pool.forget

theorem seed_erase (i : Recorded ι) : s.erase.seed id i.item = (s.seed id i).erase := by
  rw [seed, seed, pool?_erase]
  cases s.pool? id with
  | none => rfl
  | some p =>
    show s.erase.setPool id ((p.pool.map _).seed i.item).2 = _
    rw [Pool.seed_map, setPool_erase]

theorem borrow_erase :
    s.erase.borrow id = ((s.borrow id).1.map Recorded.item, (s.borrow id).2.erase) := by
  rw [borrow, borrow, pool?_erase]
  cases s.pool? id with
  | none => rfl
  | some p =>
    have htake : p.erase.pool.take = p.pool.take.map Recorded.item := Pool.take_map
    rcases hm : p.factory s.world with ⟨m, w⟩
    have hmake : p.erase.factory s.erase.world = (m.map Recorded.item, w) := by
      show Recorded.eraseFactory p.factory s.world = _
      rw [Recorded.eraseFactory, hm]
    simp only [Option.map_some, Pool.borrow, htake]
    cases p.pool.take with
    | closed | exhausted => exact congrArg (Prod.mk _) (setPool_erase p.pool)
    | idle i rest => exact congrArg (Prod.mk _) (setPool_erase rest)
    | reserved rest =>
      simp only [Take.map, hm, hmake, Pool.finish_map]
      exact congrArg (Prod.mk _) (setPool_erase (s := { s with world := w }) _)

theorem addPool_erase (name : String) (max : Nat) (f : LocalFactory ω ι) :
    s.erase.addPool ⟨.new name max, f⟩ =
      ((s.addPool ⟨.new name max, Recorded.factory f⟩).1,
        (s.addPool ⟨.new name max, Recorded.factory f⟩).2.erase) := by
  simp only [addPool, erase, Array.size_map, Array.map_push, InstancePool.erase,
    Recorded.eraseFactory_factory]
  rfl

theorem poolFor_erase (cache : CacheId) (c : PoolCache) (key : CacheKey) (kind : InstanceKind) (max : Nat)
    (f : LocalFactory ω ι) : s.erase.poolFor cache c key kind max f =
      ((s.poolFor cache c key kind max (Recorded.factory f)).1,
        (s.poolFor cache c key kind max (Recorded.factory f)).2.erase) := by
  unfold poolFor
  cases c.check key kind with
  | error e => rfl
  | ok found =>
    cases found with
    | some pool => rfl
    | none =>
      simp only [addPool_erase]
      rfl

end Store

/-! ### Bound actions and bindings without the records -/

def BoundAction.erase : BoundAction ω (Recorded ι) C → BoundAction ω ι C
  | shared action => shared action
  | perRun factory => perRun (Recorded.eraseFactory factory)
  | pooled pool style => pooled pool style

def Applied.erase (a : Applied (Store ω (Recorded ι)) C) : Applied (Store ω ι) C :=
  ⟨a.outcome, a.marks, a.world.erase⟩

section
variable [LocalAction ω ι C]

theorem giveBack_erase (pool : PoolId) (i : Recorded ι) (s : Store ω (Recorded ι)) :
    BoundAction.giveBack (C := C) pool i.item s.erase =
      ((BoundAction.giveBack (C := C) pool i s).1, (BoundAction.giveBack (C := C) pool i s).2.erase) := by
  rcases hr : LocalAction.reset C i.item s.world with ⟨r, j, w⟩
  simp only [BoundAction.giveBack, Recorded.reset_eq, Store.erase, hr]
  cases r with
  | done => exact congrArg (Prod.mk _) (Store.release_erase (s := { s with world := w }) ⟨j, _⟩)
  | failed _ | panicked _ => exact congrArg (Prod.mk _) (Store.forget_erase (s := { s with world := w }))

theorem useBorrowed_erase (pool : PoolId) (i : Recorded ι) (ctx : C) (control : Control C)
    (s : Store ω (Recorded ι)) : BoundAction.useBorrowed pool i.item ctx control s.erase =
      (BoundAction.useBorrowed pool i ctx control s).erase := by
  rcases ha : LocalAction.apply i.item ctx control s.world with ⟨a, j⟩
  have hback := giveBack_erase (C := C) pool ⟨j, i.deeds ++ [.applied]⟩ { s with world := a.world }
  simp only [Store.erase] at hback
  simp only [BoundAction.useBorrowed, Recorded.apply_eq, Store.erase, ha]
  cases a.outcome with
  | blocked => rfl
  | answered _ | panicked _ =>
    simp only [hback]
    rfl

/-- A bound action does the same with the records as without. -/
theorem erase_apply (b : BoundAction ω (Recorded ι) C) (ctx : C) (control : Control C)
    (s : Store ω (Recorded ι)) : b.erase.apply ctx control s.erase = (b.apply ctx control s).erase := by
  cases b with
  | shared action => rfl
  | perRun factory =>
    rcases hm : factory s.world with ⟨m, w⟩
    simp only [BoundAction.erase, BoundAction.apply, Store.make, Recorded.eraseFactory, hm, Store.erase]
    cases m <;> rfl
  | pooled pool style =>
    simp only [BoundAction.erase, BoundAction.apply, Store.borrow_erase]
    rcases s.borrow pool with ⟨b, t⟩
    cases b with
    | item i => exact useBorrowed_erase pool i ctx control t
    | refused _ | panicked _ | exhausted => rfl

theorem poolAt_erase [Host ω] (site : BindSite) (kind : InstanceKind) (max : Option Nat)
    (f : LocalFactory ω ι) (s : Store ω (Recorded ι)) : Manager.poolAt site kind max f s.erase =
      ((Manager.poolAt site kind max (Recorded.factory f) s).1,
        (Manager.poolAt site kind max (Recorded.factory f) s).2.erase) := by
  have hcache : s.erase.cache? = s.cache? := rfl
  simp only [Manager.poolAt, hcache]
  cases site.cache.bind fun id => (s.cache? id).map (id, ·) with
  | some found => exact Store.poolFor_erase ..
  | none =>
    simp only [Store.addPool_erase]
    rfl

/-- A binding does the same with the records as without. -/
theorem erase_bind [Host ω] (m : Manager ω ι C) (site : BindSite) (s : Store ω (Recorded ι)) :
    m.bind site s.erase =
      ((m.recorded.bind site s).1.map BoundAction.erase, (m.recorded.bind site s).2.erase) := by
  cases m with
  | shared action => rfl
  | perRun factory =>
    show (Except.ok (BoundAction.perRun factory), s.erase) =
      (Except.ok (BoundAction.perRun (Recorded.eraseFactory (Recorded.factory factory))), s.erase)
    rw [Recorded.eraseFactory_factory]
  | pooled factory max =>
    rcases hm : factory s.world with ⟨m, w⟩
    have hworld : s.erase.world = s.world := rfl
    have hs : { s.erase with world := w } = Store.erase { s with world := w } := rfl
    simp only [Manager.recorded, Manager.bind, Manager.bindPooled, Store.make, Recorded.factory,
      hworld, hm, hs]
    cases m with
    | refused _ | panicked _ => rfl
    | made i =>
      simp only [Made.map, Recorded.supportsReset_eq, Recorded.typeName_eq, Recorded.style_eq,
        Recorded.contextType_eq, Recorded.new, poolAt_erase]
      split
      · rfl
      · rcases Manager.poolAt site
          ⟨LocalAction.typeName ω C i, LocalAction.style ω C i, LocalAction.contextType ω ι C⟩ max
          (Recorded.factory factory) { s with world := w } with ⟨r, t⟩
        cases r with
        | error e => rfl
        | ok pool => exact congrArg (Prod.mk _) (Store.seed_erase ⟨i, []⟩)

end
end Pipeworks
