import Pipeworks.Lifecycle.Bound
/-!
# Calls amid others

A call of a pooled action is a row of sections, and others may come between two of them: while the call waits at
the exhausted pool, and around each piece of code that it runs with the lock released. `applyAmid` is the call with
what the others do in these gaps. With nobody there it is the call itself (`applyAmid_nobody`).
-/

namespace Pipeworks

/-- What others do to the store between the sections of a call. -/
structure Others (ω ι : Type) where
  /-- Each time that the call waits at the pool. -/
  waiting : List (Store ω ι → Store ω ι)
  /-- Between the reservation of a slot and the call of the factory. -/
  reserved : Store ω ι → Store ω ι
  /-- Between the call of the factory and the end of the borrow. -/
  made : Store ω ι → Store ω ι
  /-- Between the borrow and the application. -/
  borrowed : Store ω ι → Store ω ι
  /-- Between the application and the reset. -/
  applied : Store ω ι → Store ω ι
  /-- Between the reset and the way back to the pool. -/
  reset : Store ω ι → Store ω ι

namespace Others
variable {ω ι : Type}

def nobody : Others ω ι := ⟨[], id, id, id, id, id⟩

def gaps (o : Others ω ι) : List (Store ω ι → Store ω ι) :=
  o.waiting ++ [o.reserved, o.made, o.borrowed, o.applied, o.reset]

theorem mem_gaps {o : Others ω ι} {f : Store ω ι → Store ω ι} : f ∈ o.gaps ↔
    f ∈ o.waiting ∨ f = o.reserved ∨ f = o.made ∨ f = o.borrowed ∨ f = o.applied ∨ f = o.reset := by
  simp [gaps]

theorem waiting_mem {o : Others ω ι} {f : Store ω ι → Store ω ι} (h : f ∈ o.waiting) : f ∈ o.gaps :=
  mem_gaps.2 (.inl h)

theorem reserved_mem (o : Others ω ι) : o.reserved ∈ o.gaps := by simp [gaps]

theorem made_mem (o : Others ω ι) : o.made ∈ o.gaps := by simp [gaps]

theorem borrowed_mem (o : Others ω ι) : o.borrowed ∈ o.gaps := by simp [gaps]

theorem applied_mem (o : Others ω ι) : o.applied ∈ o.gaps := by simp [gaps]

theorem reset_mem (o : Others ω ι) : o.reset ∈ o.gaps := by simp [gaps]

end Others

namespace Store
variable {ω ι : Type}

/-- The way back of a borrowed instance. Only one whose reset was successful goes back. -/
def takeBack (s : Store ω ι) (id : PoolId) (i : ι) : ResetOutcome → Store ω ι
  | .done => s.release id i
  | .failed _ | .panicked _ => s.forget id

/-- The end of a borrow that reserved a slot. -/
def makeAmid (o : Others ω ι) (id : PoolId) (factory : LocalFactory ω ι) (s : Store ω ι) :
    Borrowed ι × Store ω ι :=
  let s := o.reserved s
  let (m, w) := factory s.world
  let s := o.made { s with world := w }
  match s.pool? id with
  | none => (.exhausted, s)
  | some p =>
    let (b, q) := p.pool.finish (m.mapError .action)
    (b, s.setPool id q)

/-- A borrower looks at the pool once. -/
def look (o : Others ω ι) (id : PoolId) (s : Store ω ι) : Borrowed ι × Store ω ι :=
  match s.pool? id with
  | none => (.exhausted, s)
  | some p =>
    match p.pool.take with
    | .closed => (.refused p.pool.closedError, s)
    | .idle i rest => (.item i, s.setPool id rest)
    | .reserved rest => makeAmid o id p.factory (s.setPool id rest)
    | .exhausted => (.exhausted, s)

/-- A borrow that looks again behind each wait. -/
def borrowAmid (o : Others ω ι) (id : PoolId) :
    List (Store ω ι → Store ω ι) → Store ω ι → Borrowed ι × Store ω ι
  | [], s => s.look o id
  | f :: waits, s =>
    match s.look o id with
    | (.exhausted, _) => borrowAmid o id waits (f s)
    | r => r

/-- A borrower that finds something does not wait. -/
theorem borrowAmid_of_found {o : Others ω ι} {id : PoolId} {s : Store ω ι} (h : (s.look o id).1 ≠ .exhausted)
    (waits : List (Store ω ι → Store ω ι)) : s.borrowAmid o id waits = s.look o id := by
  cases waits with
  | nil => rfl
  | cons f waits =>
    rw [borrowAmid]
    split
    · rw [‹s.look o id = _›] at h
      exact absurd rfl h
    · rfl

theorem borrowAmid_of_exhausted {o : Others ω ι} {id : PoolId} {s : Store ω ι}
    (h : (s.look o id).1 = .exhausted) (f : Store ω ι → Store ω ι) (waits : List (Store ω ι → Store ω ι)) :
    s.borrowAmid o id (f :: waits) = (f s).borrowAmid o id waits := by
  rw [borrowAmid]
  split
  · rfl
  · rcases hs : s.look o id with ⟨b, u⟩
    rw [hs] at h
    exact absurd (by rw [hs, show b = .exhausted from h]) (‹∀ _, s.look o id = _ → False› u)

theorem makeAmid_eq {o : Others ω ι} {id : PoolId} {factory : LocalFactory ω ι} {s : Store ω ι}
    {m : Made ActionError ι} {w : ω} {p : InstancePool ω ι} (hm : factory (o.reserved s).world = (m, w))
    (hp : (o.made { o.reserved s with world := w }).pool? id = some p) :
    makeAmid o id factory s = ((p.pool.finish (m.mapError .action)).1,
      (o.made { o.reserved s with world := w }).setPool id (p.pool.finish (m.mapError .action)).2) := by
  simp only [makeAmid, hm, hp]

theorem look_nobody (id : PoolId) (s : Store ω ι) : s.look .nobody id = s.borrow id := by
  unfold look borrow
  cases hp : s.pool? id with
  | none => rfl
  | some p =>
    simp only [Pool.borrow]
    cases htake : p.pool.take with
    | closed | exhausted => exact congrArg (Prod.mk _) (setPool_self hp).symm
    | idle i rest => rfl
    | reserved rest =>
      rcases hm : p.factory s.world with ⟨m, w⟩
      have hpool : ({ s.setPool id rest with world := w } : Store ω ι).pool? id = some { p with pool := rest } :=
        pool?_setPool_self hp
      have hmake := makeAmid_eq (o := .nobody) (s := s.setPool id rest) hm hpool
      simp only [hmake, hm]
      exact congrArg (Prod.mk _) (setPool_setPool (s := { s with world := w }))

end Store

namespace BoundAction
variable {ω ι C : Type} [LocalAction ω ι C]

/-- A use of a borrowed instance amid others. -/
def useAmid (o : Others ω ι) (id : PoolId) (i : ι) (ctx : C) (control : Control C) (s : Store ω ι) :
    Applied (Store ω ι) C :=
  let s := o.borrowed s
  let (a, i) := LocalAction.apply i ctx control s.world
  let s := o.applied { s with world := a.world }
  match a.outcome with
  | .blocked => ⟨.blocked, a.marks, s⟩
  | outcome =>
    let (r, i, w) := LocalAction.reset C i s.world
    let s := o.reset { s with world := w }
    ⟨afterReset outcome r, a.marks, s.takeBack id i r⟩

/-- A call of a pooled action amid others. -/
def applyAmid (o : Others ω ι) (id : PoolId) (ctx : C) (control : Control C) (s : Store ω ι) :
    Applied (Store ω ι) C :=
  match s.borrowAmid o id o.waiting with
  | (.refused e, s) => ⟨.fault (.ofEngineError e), .none, s⟩
  | (.panicked t, s) => ⟨.panicked t, .none, s⟩
  | (.exhausted, s) => ⟨.blocked, .none, s⟩
  | (.item i, s) => useAmid o id i ctx control s

section
variable {o : Others ω ι} {id : PoolId} {i j k : ι} {ctx : C} {control : Control C} {s : Store ω ι}
  {a : Applied ω C}

theorem useAmid_of_blocked (ha : LocalAction.apply i ctx control (o.borrowed s).world = (a, j))
    (ho : a.outcome = .blocked) :
    useAmid o id i ctx control s = ⟨.blocked, a.marks, o.applied { o.borrowed s with world := a.world }⟩ := by
  simp only [useAmid, ha, ho]

theorem useAmid_of_reset {r : ResetOutcome} {w : ω} (id : PoolId)
    (ha : LocalAction.apply i ctx control (o.borrowed s).world = (a, j)) (ho : a.outcome ≠ .blocked)
    (hr : LocalAction.reset C j (o.applied { o.borrowed s with world := a.world }).world = (r, k, w)) :
    useAmid o id i ctx control s = ⟨afterReset a.outcome r, a.marks,
      (o.reset { o.applied { o.borrowed s with world := a.world } with world := w }).takeBack id k r⟩ := by
  cases hout : a.outcome with
  | answered x | panicked text => simp only [useAmid, ha, hout, hr]
  | blocked => exact absurd hout ho

end

theorem giveBack_eq (pool : PoolId) (i j : ι) {r : ResetOutcome} {w : ω} {s : Store ω ι}
    (h : LocalAction.reset C i s.world = (r, j, w)) :
    giveBack (C := C) pool i s = (r, ({ s with world := w } : Store ω ι).takeBack pool j r) := by
  simp only [giveBack, h]
  cases r <;> rfl

/-- With nobody else at the pools, a call amid others is the call. -/
theorem applyAmid_nobody (pool : PoolId) (style : InvokeStyle) (ctx : C) (control : Control C)
    (s : Store ω ι) : applyAmid .nobody pool ctx control s = (pooled pool style).apply ctx control s := by
  have hborrow : s.borrowAmid .nobody pool [] = s.borrow pool := s.look_nobody pool
  rcases hb : s.borrow pool with ⟨b, t⟩
  rw [hb] at hborrow
  simp only [applyAmid, apply, hb, Others.nobody] at hborrow ⊢
  rw [hborrow]
  cases b with
  | refused e | panicked text | exhausted => rfl
  | item i =>
    rcases ha : LocalAction.apply i ctx control t.world with ⟨a, j⟩
    by_cases ho : a.outcome = .blocked
    · exact (useAmid_of_blocked (o := .nobody) ha ho).trans (useBorrowed_of_blocked ha ho).symm
    · rcases hr : LocalAction.reset C j a.world with ⟨r, k, w⟩
      have huse := useAmid_of_reset (o := .nobody) (s := t) pool ha ho hr
      have hback := giveBack_eq (C := C) pool j k (s := { t with world := a.world }) hr
      refine huse.trans ?_
      cases hout : a.outcome with
      | answered x | panicked text => simp only [useBorrowed, ha, hout, hback, Others.nobody, id_eq]
      | blocked => exact absurd hout ho

end BoundAction
end Pipeworks
