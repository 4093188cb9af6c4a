import Pipeworks.Lifecycle.Usage
/-!
# Clean instances

`pooled_uses_clean`: an instance that waits in a pool or is lent was not applied since its last
successful reset, one use applies its instance once and resets it once before it ends, and what a bound
action does to the store, or the binding of one, is a run of the moves that this is shown for.

The record of an instance in a pool consists of whole uses that ended in a successful reset
(`Deed.Rested`). A use adds to the record that its instance came with (`Use.Orderly`), and only one that
completes a whole use gives its instance back.
-/

namespace Pipeworks

namespace Deed
variable {ds : List Deed} {r : ResetOutcome}

/-- The record of an instance that came back, each time, from an application and a successful reset. -/
inductive Rested : List Deed → Prop where
  | new : Rested []
  | again {ds : List Deed} (h : Rested ds) : Rested (ds ++ [.applied, .reset .done])

theorem clean_append_reset (ds : List Deed) : Clean (ds ++ [.reset .done]) := by
  intro l r h
  rcases List.eq_nil_or_concat r with rfl | ⟨r', d, rfl⟩
  · have hlast := (List.append_inj' h rfl).2
    nomatch hlast
  · rw [List.concat_eq_append] at h ⊢
    rw [← List.cons_append, ← List.append_assoc] at h
    have hlast : [Deed.reset .done] = [d] := (List.append_inj' h rfl).2
    rw [← hlast]
    exact List.mem_append_right _ (List.mem_singleton_self _)

theorem Rested.clean (h : Rested ds) : Clean ds := by
  cases h with
  | new =>
    intro l r h
    simp at h
  | @again ds h =>
    rw [← List.singleton_append, ← List.append_assoc]
    exact clean_append_reset _

theorem Rested.eq_done (h : Rested ds) (hr : .reset r ∈ ds) : r = .done := by
  induction h with
  | new => nomatch hr
  | again h ih =>
    rcases List.mem_append.1 hr with hr | hr
    · exact ih hr
    · simpa using hr

end Deed

/-- The factory makes new instances, and the idle ones are rested. -/
structure InstancePool.Tidy {ω ι : Type} (p : InstancePool ω (Recorded ι)) : Prop where
  factory : ∃ f, p.factory = Recorded.factory f
  idle : ∀ i ∈ p.pool.idle, Deed.Rested i.deeds

/-- A use that does to a rested instance what its stage says. -/
structure Use.Orderly {ι : Type} (x : Use ι) : Prop where
  before : Deed.Rested x.before
  deeds : x.item.deeds = x.before ++ x.stage.deeds

theorem Use.orderly_start {ι : Type} (id : PoolId) {i : Recorded ι} (h : Deed.Rested i.deeds) :
    (Use.start id i).Orderly :=
  ⟨h, (List.append_nil _).symm⟩

namespace Store
variable {ω ι : Type} {s : Store ω (Recorded ι)} {id : PoolId}
  {p : InstancePool ω (Recorded ι)} {q : Pool (Recorded ι)} {i : Recorded ι}

def Tidy (s : Store ω (Recorded ι)) : Prop := ∀ p ∈ s.pools, p.Tidy

theorem Tidy.setPool (h : s.Tidy) (hp : s.pool? id = some p)
    (hq : ∀ i ∈ q.idle, i ∈ p.pool.idle ∨ Deed.Rested i.deeds) : (s.setPool id q).Tidy := by
  have htidy := h p (mem_of_pool? hp)
  intro x hx
  rcases mem_setPool hx with hx | ⟨p', hp', rfl⟩
  · exact h x hx
  · obtain rfl : p = p' := Option.some.inj (hp.symm.trans hp')
    exact ⟨htidy.factory, fun i hi => (hq i hi).elim (htidy.idle i) fun h => h⟩

theorem Tidy.release (h : s.Tidy) (hi : Deed.Rested i.deeds) : (s.release id i).Tidy := by
  unfold Store.release
  split
  · exact h
  · refine h.setPool ‹_› fun j hj => (Pool.mem_idle_release hj).imp_right ?_
    rintro rfl
    exact hi

theorem Tidy.seed (h : s.Tidy) (hi : Deed.Rested i.deeds) : (s.seed id i).Tidy := by
  unfold Store.seed
  split
  · exact h
  · refine h.setPool ‹_› fun j hj => (Pool.mem_idle_seed hj).imp_right ?_
    rintro rfl
    exact hi

theorem Tidy.forget (h : s.Tidy) : (s.forget id).Tidy := by
  unfold Store.forget
  split
  · exact h
  · exact h.setPool ‹_› fun _ hi => .inl hi

theorem Tidy.close (h : s.Tidy) : (s.close id).Tidy := by
  unfold Store.close
  split
  · exact h
  · exact h.setPool ‹_› fun _ hi => nomatch hi

theorem Tidy.addPool (h : s.Tidy) (name : String) (max : Nat) (f : LocalFactory ω ι) :
    (s.addPool ⟨.new name max, Recorded.factory f⟩).2.Tidy := by
  intro p hp
  rcases Array.mem_push.1 hp with hp | rfl
  · exact h p hp
  · exact ⟨⟨f, rfl⟩, fun _ hi => nomatch hi⟩

end Store

namespace Usage
variable {ω ι C : Type} {u : Usage ω ι} {s : Store ω (Recorded ι)} {i : Recorded ι}

/-! ### The invariant -/

structure Tidy (u : Usage ω ι) : Prop where
  store : u.store.Tidy
  uses : ∀ x ∈ u.uses, x.Orderly
  ended : ∀ x ∈ u.ended, x.Orderly ∧ ∃ r, x.stage = .reset r

theorem Tidy.changed (h : u.Tidy) (hs : s.Tidy) : Tidy { u with store := s } := ⟨hs, h.uses, h.ended⟩

theorem Tidy.begin (h : u.Tidy) (hs : s.Tidy) (id : PoolId) {b : Borrowed (Recorded ι)}
    (hb : ∀ i, b = .item i → Deed.Rested i.deeds) (making : List PoolId) :
    Tidy { u with store := s, making := making, uses := u.uses ++ Use.begun id b } := by
  refine ⟨hs, fun x hx => ?_, h.ended⟩
  rcases List.mem_append.1 hx with hx | hx
  · exact h.uses x hx
  · cases b with
    | item i =>
      rw [List.mem_singleton.1 hx]
      exact Use.orderly_start id (hb i rfl)
    | refused _ | panicked _ | exhausted => nomatch hx

theorem Tidy.goOn (h : u.Tidy) (hs : s.Tidy) {x : Use ι} (hx : x.Orderly) (k : Nat) :
    Tidy { u with store := s, uses := u.uses.set k x } := by
  refine ⟨hs, fun y hy => ?_, h.ended⟩
  rcases List.mem_or_eq_of_mem_set hy with hy | rfl
  · exact h.uses y hy
  · exact hx

theorem Tidy.borrow (h : u.Tidy) (id : PoolId) : (u.borrow id).Tidy := by
  unfold Usage.borrow
  split
  · exact h
  · rename_i p hp
    split
    · exact h
    · exact h
    · rename_i i rest htake
      have hidle : p.pool.idle = i :: rest.idle := Pool.idle_of_take htake
      have hi : Deed.Rested i.deeds :=
        (h.store p (Store.mem_of_pool? hp)).idle i (hidle ▸ List.mem_cons_self ..)
      refine h.begin (b := .item i) (h.store.setPool hp fun j hj => .inl ?_) id ?_ u.making
      · rw [hidle]
        exact List.mem_cons_of_mem _ hj
      · rintro j ⟨⟩
        exact hi
    · rename_i rest htake
      refine ⟨h.store.setPool hp fun j hj => .inl ?_, h.uses, h.ended⟩
      rwa [Pool.idle_of_reserved htake] at hj

theorem Tidy.make (h : u.Tidy) (k : Nat) : (u.make k).Tidy := by
  unfold Usage.make
  split
  · exact h
  · rename_i pool hpool
    split
    · exact h
    · rename_i p hp
      obtain ⟨f, hf⟩ := (h.store p (Store.mem_of_pool? hp)).factory
      rcases hm : f u.store.world with ⟨m, w⟩
      rw [hf, Recorded.factory, hm]
      refine h.begin (s := Store.setPool { u.store with world := w } pool _) ?_ pool ?_ _
      · refine Store.Tidy.setPool (s := { u.store with world := w }) h.store hp fun i hi => .inl ?_
        have hi : i ∈ (p.pool.finish ((m.map .new).mapError .action)).2.idle := hi
        rwa [Pool.idle_finish] at hi
      · intro i hi
        cases m with
        | made a =>
          cases hi
          exact .new
        | refused e => cases hi
        | panicked t => cases hi

theorem tidy_start (w : ω) : (start w : Usage ω ι).Tidy :=
  ⟨fun p hp => absurd hp (Array.not_mem_empty p), List.forall_mem_nil _, List.forall_mem_nil _⟩

variable [LocalAction ω ι C]

theorem Tidy.apply (h : u.Tidy) (k : Nat) (ctx : C) (control : Control C) :
    (u.apply k ctx control).Tidy := by
  unfold Usage.apply
  split
  · rename_i pool i before hx
    have hlent := h.uses _ (List.mem_of_getElem? hx)
    rcases ha : LocalAction.apply i ctx control u.store.world with ⟨a, j⟩
    have hdeeds : j.deeds = before ++ [.applied] := by
      rw [Recorded.deeds_of_apply ha, hlent.deeds, List.append_assoc]
      rfl
    exact h.goOn (s := { u.store with world := a.world }) (x := ⟨pool, j, before, .applied⟩) h.store
      ⟨hlent.before, hdeeds⟩ k
  · exact h

theorem Tidy.reset (h : u.Tidy) (k : Nat) : (u.reset C k).Tidy := by
  unfold Usage.reset
  split
  · rename_i pool i before hx
    have happlied := h.uses _ (List.mem_of_getElem? hx)
    rcases hr : LocalAction.reset C i u.store.world with ⟨r, j, w⟩
    have hdeeds : j.deeds = before ++ [.applied, .reset r] := by
      rw [Recorded.deeds_of_reset C hr, happlied.deeds, List.append_assoc]
      rfl
    exact h.goOn (s := { u.store with world := w }) (x := ⟨pool, j, before, .reset r⟩) h.store
      ⟨happlied.before, hdeeds⟩ k
  · exact h

omit [LocalAction ω ι C] in
theorem Tidy.giveBack (h : u.Tidy) (k : Nat) : (u.giveBack k).Tidy := by
  unfold Usage.giveBack
  split
  · rename_i pool i before r hx
    have hreset := h.uses _ (List.mem_of_getElem? hx)
    have hdeeds : i.deeds = before ++ [.applied, .reset r] := hreset.deeds
    refine ⟨?_, fun x hx => h.uses x (List.mem_of_mem_eraseIdx hx), fun x hx => ?_⟩
    · cases r with
      | done => exact h.store.release (hdeeds ▸ hreset.before.again)
      | failed _ | panicked _ => exact h.store.forget
    · rcases List.mem_append.1 hx with hx | hx
      · exact h.ended x hx
      · rw [List.mem_singleton.1 hx]
        exact ⟨hreset, r, rfl⟩
  · exact h

theorem Tidy.step (h : u.Tidy) (m : Move ω ι C) : (u.step m).Tidy := by
  cases m with
  | world w => exact h.changed h.store
  | caches cs => exact h.changed h.store
  | pool name max f => exact h.changed (h.store.addPool name max f)
  | seed id i => exact h.changed (h.store.seed .new)
  | close id => exact h.changed h.store.close
  | borrow id => exact h.borrow id
  | make k => exact h.make k
  | apply k ctx control => exact h.apply k ctx control
  | reset k => exact h.reset k
  | giveBack k => exact h.giveBack k

theorem Tidy.run (h : u.Tidy) (ms : List (Move ω ι C)) : (u.run ms).Tidy := by
  induction ms generalizing u with
  | nil => exact h
  | cons m ms ih => exact ih (h.step m)

/-! ### Bound actions -/

theorem run_borrow (u : Usage ω ι) (pool : PoolId) : ∃ ms : List (Move ω ι C), u.run ms =
    { u with
      store := (u.store.borrow pool).2, uses := u.uses ++ Use.begun pool (u.store.borrow pool).1 } := by
  cases hp : u.store.pool? pool with
  | none =>
    refine ⟨[], ?_⟩
    simp only [Store.borrow, hp, Use.begun, List.append_nil, run_nil]
  | some p =>
    cases htake : p.pool.take with
    | closed =>
      refine ⟨[], ?_⟩
      simp only [Store.borrow, hp, Pool.borrow, htake, Store.setPool_self hp, Use.begun,
        List.append_nil, run_nil]
    | exhausted =>
      refine ⟨[], ?_⟩
      simp only [Store.borrow, hp, Pool.borrow, htake, Store.setPool_self hp, Use.begun,
        List.append_nil, run_nil]
    | idle i rest =>
      refine ⟨[.borrow pool], ?_⟩
      simp only [run_cons, run_nil, step, Usage.borrow, Store.borrow, hp, Pool.borrow, htake,
        Use.begun]
    | reserved rest =>
      rcases hm : p.factory u.store.world with ⟨m, w⟩
      have hborrow : u.borrow pool =
          { u with store := u.store.setPool pool rest, making := u.making ++ [pool] } := by
        simp only [Usage.borrow, hp, htake]
      have hpool : (u.store.setPool pool rest).pool? pool = some { p with pool := rest } :=
        Store.pool?_setPool_self hp
      have hmake := make_last
        (u := { u with store := u.store.setPool pool rest, making := u.making ++ [pool] })
        u.making rfl hpool hm
      have hset (q : Pool (Recorded ι)) :
          Store.setPool { u.store.setPool pool rest with world := w } pool q =
            Store.setPool { u.store with world := w } pool q :=
        Store.setPool_setPool (s := { u.store with world := w })
      refine ⟨[.borrow pool, .make u.making.length], ?_⟩
      show (u.borrow pool).make u.making.length = _
      rw [hborrow, hmake]
      simp only [Store.borrow, hp, Pool.borrow, htake, hm, hset]

/-- What is done with a borrowed instance is a run of its use, which ends unless it is blocked. -/
theorem run_useBorrowed {us : List (Use ι)} {pool : PoolId} (hu : u.uses = us ++ [.start pool i])
    (ctx : C) (control : Control C) :
    let a := BoundAction.useBorrowed pool i ctx control u.store
    ∃ ms : List (Move ω ι C), (u.run ms).store = a.world ∧ (u.run ms).making = u.making ∧
      (a.outcome ≠ .blocked → (u.run ms).uses = us) := by
  rcases ha : LocalAction.apply i ctx control u.store.world with ⟨a, j⟩
  have happly := apply_last us hu ha
  by_cases ho : a.outcome = .blocked
  · rw [BoundAction.useBorrowed_of_blocked ha ho]
    refine ⟨[.apply us.length ctx control], ?_⟩
    simp only [run_cons, run_nil, step, happly]
    exact ⟨trivial, trivial, fun h => absurd rfl h⟩
  · rcases hr : LocalAction.reset C j a.world with ⟨r, k, w⟩
    refine ⟨[.apply us.length ctx control, .reset us.length, .giveBack us.length], ?_⟩
    simp only [run_cons, run_nil, step, happly]
    rw [reset_last us rfl hr, giveBack_last us rfl]
    refine ⟨?_, rfl, fun _ => rfl⟩
    simp only [BoundAction.world_useBorrowed ha ho, BoundAction.giveBack, hr]
    cases r <;> rfl

theorem run_apply (u : Usage ω ι) (b : BoundAction ω (Recorded ι) C) (ctx : C) (control : Control C) :
    let a := b.apply ctx control u.store
    ∃ ms : List (Move ω ι C), (u.run ms).store = a.world ∧ (u.run ms).making = u.making ∧
      (a.outcome ≠ .blocked → (u.run ms).uses = u.uses) := by
  cases b with
  | shared action =>
    exact ⟨[.world (action.apply ctx control u.store.world).world], rfl, rfl, fun _ => rfl⟩
  | perRun factory =>
    rcases hm : factory u.store.world with ⟨m, w⟩
    simp only [BoundAction.apply, Store.make, hm]
    cases m with
    | refused e => exact ⟨[.world w], rfl, rfl, fun _ => rfl⟩
    | panicked t => exact ⟨[.world w], rfl, rfl, fun _ => rfl⟩
    | made i =>
      exact ⟨[.world (LocalAction.apply i ctx control w).1.world], rfl, rfl, fun _ => rfl⟩
  | pooled pool style =>
    obtain ⟨ms, hms⟩ := run_borrow (C := C) u pool
    rcases hb : u.store.borrow pool with ⟨b, s⟩
    rw [hb] at hms
    have hmaking : (u.run ms).making = u.making := by rw [hms]
    have huses : (u.run ms).uses = u.uses ++ Use.begun pool b := by rw [hms]
    have hstore : (u.run ms).store = s := by rw [hms]
    simp only [BoundAction.apply, hb]
    cases b with
    | item i =>
      obtain ⟨ns, hns⟩ := run_useBorrowed huses ctx control
      rw [hstore, hmaking] at hns
      refine ⟨ms ++ ns, ?_⟩
      rw [run_append]
      exact hns
    | refused _ | panicked _ => exact ⟨ms, hstore, hmaking, fun _ => huses.trans (List.append_nil _)⟩
    | exhausted => exact ⟨ms, hstore, hmaking, fun h => absurd rfl h⟩

/-! ### Bindings -/

variable [Host ω]

theorem run_poolAt (u : Usage ω ι) (site : BindSite) (kind : InstanceKind) (max : Option Nat)
    (f : LocalFactory ω ι) : ∃ ms : List (Move ω ι C), u.run ms =
      { u with store := (Manager.poolAt site kind max (Recorded.factory f) u.store).2 } := by
  unfold Manager.poolAt
  split
  · rename_i id c _
    unfold Store.poolFor
    split
    · exact ⟨[], rfl⟩
    · exact ⟨[], rfl⟩
    · exact ⟨[.pool _ _ f, .caches _], rfl⟩
  · exact ⟨[.pool _ _ f], rfl⟩

theorem run_bind (u : Usage ω ι) (m : Manager ω ι C) (site : BindSite) :
    ∃ ms : List (Move ω ι C), u.run ms = { u with store := (m.recorded.bind site u.store).2 } := by
  cases m with
  | shared action => exact ⟨[], rfl⟩
  | perRun factory => exact ⟨[], rfl⟩
  | pooled factory max =>
    rcases hm : factory u.store.world with ⟨m, w⟩
    show ∃ ms : List (Move ω ι C), u.run ms =
      { u with store := (Manager.bindPooled (C := C) site (Recorded.factory factory) max u.store).2 }
    simp only [Manager.bindPooled, Store.make, Recorded.factory, hm]
    cases m with
    | refused e => exact ⟨[.world w], rfl⟩
    | panicked t => exact ⟨[.world w], rfl⟩
    | made i =>
      simp only [Made.map]
      split
      · exact ⟨[.world w], rfl⟩
      · obtain ⟨ms, hms⟩ := run_poolAt (C := C) (u.step (.world w : Move ω ι C)) site
          ⟨LocalAction.typeName ω C (Recorded.new i), LocalAction.style ω C (Recorded.new i),
            LocalAction.contextType ω (Recorded ι) C⟩ max factory
        split
        · rename_i e s hpool
          refine ⟨.world w :: ms, ?_⟩
          rw [run_cons, hms]
          exact congrArg (fun r => { u with store := r.2 }) hpool
        · rename_i pool s hpool
          refine ⟨.world w :: (ms ++ [.seed pool i]), ?_⟩
          rw [run_cons, run_append, hms]
          exact congrArg (fun r => { u with store := r.2.seed pool (.new i) }) hpool

/-- **Every pooled use starts from a clean instance.** An instance that waits in a pool, or was lent from
one, had a successful reset since it was last applied, if ever, and none of its resets failed. A use
applies its instance once and then resets it once, and ends no earlier. All that bound actions and
bindings do to the store are such runs. -/
theorem pooled_uses_clean (w : ω) (ms : List (Move ω ι C)) :
    let u := (start w : Usage ω ι).run ms
    (∀ p ∈ u.store.pools, ∀ i ∈ p.pool.idle,
      Deed.Clean i.deeds ∧ ∀ r, .reset r ∈ i.deeds → r = .done) ∧
    (∀ x ∈ u.uses ++ u.ended, Deed.Clean x.before ∧ (∀ r, .reset r ∈ x.before → r = .done) ∧
      x.item.deeds = x.before ++ x.stage.deeds) ∧
    (∀ x ∈ u.ended, ∃ r, x.stage = .reset r) ∧
    (∀ (b : BoundAction ω (Recorded ι) C) ctx control,
      let a := b.apply ctx control u.store
      ∃ ns : List (Move ω ι C), (u.run ns).store = a.world ∧ (u.run ns).making = u.making ∧
        (a.outcome ≠ .blocked → (u.run ns).uses = u.uses)) ∧
    (∀ (m : Manager ω ι C) site, ∃ ns : List (Move ω ι C),
      u.run ns = { u with store := (m.recorded.bind site u.store).2 }) := by
  intro u
  have h : u.Tidy := (tidy_start w).run ms
  have huse (x : Use ι) (hx : x.Orderly) : Deed.Clean x.before ∧
      (∀ r, .reset r ∈ x.before → r = .done) ∧ x.item.deeds = x.before ++ x.stage.deeds :=
    ⟨hx.before.clean, fun _ => hx.before.eq_done, hx.deeds⟩
  refine ⟨fun p hp i hi => ?_, fun x hx => ?_, fun x hx => (h.ended x hx).2, run_apply u, run_bind u⟩
  · have hi := (h.store p hp).idle i hi
    exact ⟨hi.clean, fun _ => hi.eq_done⟩
  · rcases List.mem_append.1 hx with hx | hx
    · exact huse x (h.uses x hx)
    · exact huse x (h.ended x hx).1

end Usage
end Pipeworks
