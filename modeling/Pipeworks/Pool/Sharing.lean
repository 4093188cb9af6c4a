import Mathlib.Data.List.Perm.Basic
import Pipeworks.Lifecycle.Manager
/-!
# Shared pools and their clients

The pools of a store together with what their clients hold, and with what the caches of the store were
asked for. The clients go through the sections of pools and caches one at a time, in any order: `Move` is
one such section. Binding an action is a run of such moves (`run_bindPooled`), whatever the contexts are
that the action works on.
-/

namespace Pipeworks

namespace Pool
variable {α : Type} {p q : Pool α} {n : Nat}

/-- The count covers what is idle and the `n` instances that are out, and stays within the bound. -/
structure Covers (p : Pool α) (n : Nat) : Prop where
  counted : p.idle.length + n ≤ p.created
  bounded : p.created ≤ p.max

theorem covers_new (name : String) (max : Nat) : (new name max : Pool α).Covers 0 :=
  ⟨Nat.le_refl _, Nat.zero_le _⟩

theorem Covers.mono (h : p.Covers n) {m : Nat} (hm : m ≤ n) : p.Covers m :=
  ⟨Nat.le_trans (Nat.add_le_add_left hm _) h.counted, h.bounded⟩

/-- A borrower that is served gets what was idle or has a slot counted for it. -/
theorem Covers.take (h : p.Covers n) (ht : (∃ a, p.take = .idle a q) ∨ p.take = .reserved q) :
    q.Covers (n + 1) := by
  obtain ⟨hn, hb⟩ := h
  unfold Pool.take at ht
  split at ht
  · rcases ht with ⟨a, ht⟩ | ht <;> nomatch ht
  · split at ht
    · rename_i b rest hi
      rcases ht with ⟨a, ht⟩ | ht <;> cases ht
      refine ⟨?_, hb⟩
      simp only [hi, List.length_cons] at hn ⊢
      omega
    · rename_i hi
      split at ht
      · rename_i hlt
        rcases ht with ⟨a, ht⟩ | ht <;> cases ht
        refine ⟨?_, hlt⟩
        simp only [hi] at hn ⊢
        omega
      · rcases ht with ⟨a, ht⟩ | ht <;> nomatch ht

theorem Covers.forget (h : p.Covers (n + 1)) : p.forget.Covers n := by
  obtain ⟨hn, hb⟩ := h
  refine ⟨?_, ?_⟩ <;> simp only [Pool.forget] <;> omega

theorem Covers.release (h : p.Covers (n + 1)) (a : α) : (p.release a).Covers n := by
  unfold Pool.release
  split
  · exact h.forget
  · obtain ⟨hn, hb⟩ := h
    refine ⟨?_, hb⟩
    simp only [List.length_append, List.length_singleton]
    omega

theorem Covers.seed (h : p.Covers n) (a : α) : (p.seed a).2.Covers n := by
  obtain ⟨hn, hb⟩ := h
  unfold Pool.seed
  split
  · exact ⟨hn, hb⟩
  · refine ⟨?_, ?_⟩ <;> simp only [List.length_append, List.length_singleton] <;> omega

theorem Covers.close (h : p.Covers n) : p.close.Covers n := by
  obtain ⟨hn, hb⟩ := h
  refine ⟨?_, ?_⟩ <;> simp only [Pool.close, List.length_nil] <;> omega

theorem max_take (ht : (∃ a, p.take = .idle a q) ∨ p.take = .reserved q) : q.max = p.max := by
  unfold Pool.take at ht
  split at ht
  · rcases ht with ⟨a, ht⟩ | ht <;> nomatch ht
  · split at ht
    · rcases ht with ⟨a, ht⟩ | ht <;> cases ht
      rfl
    · split at ht
      · rcases ht with ⟨a, ht⟩ | ht <;> cases ht
        rfl
      · rcases ht with ⟨a, ht⟩ | ht <;> nomatch ht

theorem max_release (p : Pool α) (a : α) : (p.release a).max = p.max := by
  unfold Pool.release
  split <;> rfl

theorem max_seed (p : Pool α) (a : α) : (p.seed a).2.max = p.max := by
  unfold Pool.seed
  split <;> rfl

end Pool

/-- What a cache is asked for: the pool of a kind of instances under a key, of at most `max` of them if it
is new. -/
structure Wish where
  cache : CacheId
  key : CacheKey
  kind : InstanceKind
  max : Nat

namespace Manager
variable {ω ι C : Type} [Host ω] [LocalAction ω ι C]

/-- What binding a pooled action asks a cache for, if it comes to that. -/
def wish? (C : Type) [LocalAction ω ι C] (site : BindSite) (factory : LocalFactory ω ι) (max : Option Nat)
    (s : Store ω ι) : Option Wish :=
  match (s.make factory).1 with
  | .made i =>
    if LocalAction.supportsReset ω C i then
      (site.cache.bind fun id => (s.cache? id).map (id, ·)).map fun (id, c) =>
        { cache := id
          key := site.cacheKey
          kind :=
            ⟨LocalAction.typeName ω C i, LocalAction.style ω C i, LocalAction.contextType ω ι C⟩
          max := (max <|> site.defaultPoolMax).getD c.defaultMax }
    else none
  | .refused _ | .panicked _ => none

variable {site : BindSite} {f : LocalFactory ω ι} {max : Option Nat} {s : Store ω ι}

/-- Binding asks for its pool behind the call of the factory, and offers the instance to what it gets. -/
theorem bindPooled_of_wish {q : Wish} (h : wish? C site f max s = some q) :
    ∃ i c, s.cache? q.cache = some c ∧
      bindPooled (C := C) site f max s = match (s.make f).2.poolFor q.cache c q.key q.kind q.max f with
        | (.error e, s) => (.error (.error e), s)
        | (.ok pool, s) => (.ok (.pooled pool q.kind.style), s.seed pool i) := by
  unfold wish? at h
  cases hm : (s.make f).1 with
  | refused e | panicked t =>
    rw [hm] at h
    cases h
  | made i =>
    simp only [hm] at h
    split at h
    · rename_i hreset
      obtain ⟨⟨id, c⟩, hfound, rfl⟩ := Option.map_eq_some_iff.1 h
      have hc : s.cache? id = some c := by
        obtain ⟨id', -, hid⟩ := Option.bind_eq_some_iff.1 hfound
        obtain ⟨c', hc, heq⟩ := Option.map_eq_some_iff.1 hid
        cases heq
        exact hc
      have hfound' : (site.cache.bind fun id => ((s.make f).2.cache? id).map (id, ·)) = some (id, c) := hfound
      have hmake : s.make f = (.made i, (s.make f).2) := Prod.ext hm rfl
      refine ⟨i, c, hc, ?_⟩
      dsimp only
      generalize hasked : (s.make f).2.poolFor id c site.cacheKey _ _ f = asked
      rw [bindPooled, hmake]
      obtain ⟨e | pool, t⟩ := asked
      all_goals
        simp only [hreset, Bool.not_true, Bool.false_eq_true, if_false, poolAt, hfound', hasked]
    · cases h

/-- Without asking, binding leaves the pools alone or makes one of its own. -/
theorem bindPooled_of_no_wish (h : wish? C site f max s = none) :
    (bindPooled (C := C) site f max s).2 = (s.make f).2 ∨
      ∃ name m i, (bindPooled (C := C) site f max s).2 =
        ((s.make f).2.addPool ⟨.new name m, f⟩).2.seed s.pools.size i := by
  unfold wish? at h
  cases hm : (s.make f).1 with
  | refused e | panicked t =>
    have hmake : s.make f = (_, (s.make f).2) := Prod.ext hm rfl
    left
    rw [bindPooled, hmake]
  | made i =>
    have hmake : s.make f = (.made i, (s.make f).2) := Prod.ext hm rfl
    simp only [hm] at h
    split at h
    · rename_i hreset
      have hfound : (site.cache.bind fun id => ((s.make f).2.cache? id).map (id, ·)) = none :=
        Option.map_eq_none_iff.1 h
      right
      rw [bindPooled, hmake]
      simp only [hreset, Bool.not_true, Bool.false_eq_true, if_false, poolAt, hfound]
      exact ⟨_, _, i, rfl⟩
    · rename_i hreset
      left
      rw [bindPooled, hmake]
      simp only [Bool.not_eq_true] at hreset
      simp only [hreset, Bool.not_false, if_true]

end Manager

structure Sharing (ω ι : Type) where
  store : Store ω ι
  /-- The pools of the guards. -/
  lent : List PoolId
  /-- The pools of the borrowers whose call of the factory has not ended. -/
  making : List PoolId
  /-- What the caches were asked for so far. -/
  asked : List Wish

namespace Sharing
variable {ω ι : Type}

/-- A world without pools, with an empty cache for each of the sizes. -/
def start (w : ω) (sizes : List Nat) : Sharing ω ι :=
  { store := ⟨w, #[], (sizes.map PoolCache.new).toArray⟩, lent := [], making := [], asked := [] }

inductive Move (ω ι : Type) where
  /-- Something else happens in the world. -/
  | world (w : ω)
  /-- A cache is asked for a pool. -/
  | ask (q : Wish) (factory : LocalFactory ω ι)
  /-- A pool is made that is in no cache. -/
  | pool (name : String) (max : Nat) (factory : LocalFactory ω ι)
  | seed (pool : PoolId) (i : ι)
  | close (pool : PoolId)
  /-- A borrower comes to a pool. One that finds it exhausted may come again. -/
  | borrow (pool : PoolId)
  /-- The factory is called for a borrower, and its borrow ends. -/
  | make (borrower : Nat)
  /-- A guard is dropped, with the instance as its holder leaves it. -/
  | release (guard : Nat) (i : ι)
  | discard (guard : Nat)

/-- The first that a cache was asked for under a key. -/
def first? (x : Sharing ω ι) (cache : CacheId) (key : CacheKey) : Option Wish :=
  x.asked.find? fun q => q.cache = cache ∧ q.key = key

/-- What a cache holds under a key. -/
def filed? (x : Sharing ω ι) (cache : CacheId) (key : CacheKey) : Option (InstanceKind × PoolId) :=
  x.store.filed? cache key

def ask (x : Sharing ω ι) (q : Wish) (factory : LocalFactory ω ι) : Sharing ω ι :=
  match x.store.cache? q.cache with
  | none => x
  | some c =>
    { x with
      store := (x.store.poolFor q.cache c q.key q.kind q.max factory).2, asked := x.asked ++ [q] }

/-- What a cache answers, if it is there. -/
def answer (x : Sharing ω ι) (q : Wish) (factory : LocalFactory ω ι) : Option (Except ConfigError PoolId) :=
  (x.store.cache? q.cache).map fun c => (x.store.poolFor q.cache c q.key q.kind q.max factory).1

def borrow (x : Sharing ω ι) (id : PoolId) : Sharing ω ι :=
  match x.store.pool? id with
  | none => x
  | some p =>
    match p.pool.take with
    | .closed | .exhausted => x
    | .idle _ rest => { x with store := x.store.setPool id rest, lent := x.lent ++ [id] }
    | .reserved rest => { x with store := x.store.setPool id rest, making := x.making ++ [id] }

def make (x : Sharing ω ι) (borrower : Nat) : Sharing ω ι :=
  match x.making[borrower]? with
  | none => x
  | some id =>
    match x.store.pool? id with
    | none => x
    | some p =>
      let (m, w) := p.factory x.store.world
      let (b, pool) := p.pool.finish (m.mapError .action)
      let x := { x with
        store := { x.store with world := w }.setPool id pool, making := x.making.eraseIdx borrower }
      match b with
      | .item _ => { x with lent := x.lent ++ [id] }
      | _ => x

/-- A guard is given up, and the store changes with it. -/
def giveUp (x : Sharing ω ι) (guard : Nat) (f : Store ω ι → PoolId → Store ω ι) : Sharing ω ι :=
  match x.lent[guard]? with
  | none => x
  | some id =>
    match x.store.pool? id with
    | none => x
    | some _ => { x with store := f x.store id, lent := x.lent.eraseIdx guard }

def step (x : Sharing ω ι) : Move ω ι → Sharing ω ι
  | .world w => { x with store := { x.store with world := w } }
  | .ask q factory => x.ask q factory
  | .pool name max factory => { x with store := (x.store.addPool ⟨.new name max, factory⟩).2 }
  | .seed id i => { x with store := x.store.seed id i }
  | .close id => { x with store := x.store.close id }
  | .borrow id => x.borrow id
  | .make borrower => x.make borrower
  | .release guard i => x.giveUp guard fun s id => s.release id i
  | .discard guard => x.giveUp guard Store.forget

def run (x : Sharing ω ι) (ms : List (Move ω ι)) : Sharing ω ι := ms.foldl step x

@[simp] theorem run_nil (x : Sharing ω ι) : x.run [] = x := rfl

@[simp] theorem run_cons (x : Sharing ω ι) (m : Move ω ι) (ms : List (Move ω ι)) :
    x.run (m :: ms) = (x.step m).run ms := rfl

theorem run_append (x : Sharing ω ι) (ms ns : List (Move ω ι)) :
    x.run (ms ++ ns) = (x.run ms).run ns :=
  List.foldl_append

/-- The instances of a pool that are out: lent to a guard or being made. -/
def live (x : Sharing ω ι) (id : PoolId) : Nat := x.lent.count id + x.making.count id

/-! ### What a move does -/

/-- The effect of a move. -/
inductive Shift (x : Sharing ω ι) : Sharing ω ι → Prop where
  | world (w : ω) : Shift x { x with store := { x.store with world := w } }
  /-- A cache is asked for what it has, perhaps for another kind. -/
  | known (q : Wish) {e : InstanceKind × PoolId} (he : x.filed? q.cache q.key = some e) :
    Shift x { x with asked := x.asked ++ [q] }
  | entered (q : Wish) (f : LocalFactory ω ι) {c : PoolCache} (hc : x.store.cache? q.cache = some c)
      (hk : c.find? q.key = none) :
    Shift x { x with
      store :=
        { x.store with
          pools := x.store.pools.push ⟨.new q.key.display q.max, f⟩
          caches := x.store.caches.setIfInBounds q.cache (c.add q.key q.kind x.store.pools.size) }
      asked := x.asked ++ [q] }
  | added (name : String) (max : Nat) (f : LocalFactory ω ι) :
    Shift x { x with
      store := { x.store with pools := x.store.pools.push ⟨.new name max, f⟩ } }
  /-- One pool changes, together with what is out of it. -/
  | changed {id : PoolId} {p : InstancePool ω ι} (w : ω) {q : Pool ι} {lent making : List PoolId}
      (hp : x.store.pool? id = some p) (hmax : q.max = p.pool.max)
      (hq : p.pool.Covers (x.live id) → q.Covers (lent.count id + making.count id))
      (hne : ∀ i, i ≠ id → lent.count i + making.count i = x.live i) :
    Shift x { store := { x.store with world := w }.setPool id q, lent, making, asked := x.asked }

theorem Shift.refl (x : Sharing ω ι) : x.Shift x := .world x.store.world

theorem count_concat (l : List PoolId) (id i : PoolId) :
    (l ++ [id]).count i = l.count i + if i = id then 1 else 0 := by
  rw [List.count_append, List.count_singleton]
  simp only [beq_iff_eq, eq_comm (a := id)]

theorem count_eraseIdx {l : List PoolId} {n : Nat} {id : PoolId} (h : l[n]? = some id) (i : PoolId) :
    l.count i = (l.eraseIdx n).count i + if i = id then 1 else 0 := by
  obtain ⟨hn, rfl⟩ := List.getElem?_eq_some_iff.1 h
  rw [← (List.getElem_cons_eraseIdx_perm hn).count_eq i, List.count_cons]
  simp only [beq_iff_eq, eq_comm (a := l[n])]

theorem shift_ask (x : Sharing ω ι) (q : Wish) (f : LocalFactory ω ι) : x.Shift (x.ask q f) := by
  unfold ask
  cases hc : x.store.cache? q.cache with
  | none => exact .refl x
  | some c =>
    cases hk : c.find? q.key with
    | none =>
      simp only [Store.poolFor_of_none hk]
      exact .entered q f hc hk
    | some e =>
      obtain ⟨kind, id⟩ := e
      have he : x.filed? q.cache q.key = some (kind, id) := (Store.filed?_eq_find? hc q.key).trans hk
      by_cases hkind : kind = q.kind
      · subst hkind
        simp only [Store.poolFor_of_same hk]
        exact .known q he
      · simp only [Store.poolFor_of_other hk hkind]
        exact .known q he

theorem shift_borrow (x : Sharing ω ι) (id : PoolId) : x.Shift (x.borrow id) := by
  unfold borrow
  split
  · exact .refl x
  · rename_i p hp
    split
    · exact .refl x
    · exact .refl x
    · rename_i a rest ht
      refine .changed x.store.world hp (Pool.max_take (.inl ⟨a, ht⟩)) (fun h => ?_) fun i hi => ?_
      · rw [count_concat, if_pos rfl, Nat.add_right_comm]
        exact h.take (.inl ⟨a, ht⟩)
      · rw [count_concat, if_neg hi]
        rfl
    · rename_i rest ht
      refine .changed x.store.world hp (Pool.max_take (.inr ht)) (fun h => ?_) fun i hi => ?_
      · rw [count_concat, if_pos rfl]
        exact h.take (.inr ht)
      · rw [count_concat, if_neg hi]
        rfl

theorem shift_make (x : Sharing ω ι) (borrower : Nat) : x.Shift (x.make borrower) := by
  unfold make
  split
  · exact .refl x
  · rename_i id hb
    split
    · exact .refl x
    · rename_i p hp
      have hcount := count_eraseIdx hb
      -- The slot of the borrower is one of those that are out.
      have hout : x.live id = x.lent.count id + (x.making.eraseIdx borrower).count id + 1 := by
        rw [live, hcount id, if_pos rfl, Nat.add_assoc]
      have hkeep (i : PoolId) (hi : i ≠ id) :
          x.lent.count i + (x.making.eraseIdx borrower).count i = x.live i := by
        rw [live, hcount i, if_neg hi]
        rfl
      cases hm : (p.factory x.store.world).1 with
      | made a =>
        simp only [hm, Made.mapError, Pool.finish]
        refine .changed _ hp rfl (fun h => ?_) fun i hi => ?_
        · rw [count_concat, if_pos rfl, Nat.add_right_comm, ← hout]
          exact h
        · rw [count_concat, if_neg hi]
          exact hkeep i hi
      | refused e =>
        simp only [hm, Made.mapError, Pool.finish]
        exact .changed _ hp rfl (fun h => Pool.Covers.forget (hout ▸ h)) hkeep
      | panicked t =>
        simp only [hm, Made.mapError, Pool.finish]
        exact .changed _ hp rfl (fun h => h.mono (hout ▸ Nat.le_succ _)) hkeep

theorem shift_giveUp (x : Sharing ω ι) (guard : Nat) {f : Store ω ι → PoolId → Store ω ι}
    {g : Pool ι → Pool ι}
    (hf : ∀ id p, x.store.pool? id = some p → f x.store id = x.store.setPool id (g p.pool))
    (hg : ∀ p n, p.Covers (n + 1) → (g p).Covers n) (hmax : ∀ p, (g p).max = p.max) :
    x.Shift (x.giveUp guard f) := by
  unfold giveUp
  split
  · exact .refl x
  · rename_i id hl
    split
    · exact .refl x
    · rename_i p hp
      have hcount := count_eraseIdx hl
      rw [hf id p hp]
      refine .changed x.store.world hp (hmax _) (fun h => hg _ _ ?_) fun i hi => ?_
      · rw [live, hcount id, if_pos rfl, Nat.add_right_comm] at h
        exact h
      · rw [live, hcount i, if_neg hi]
        rfl

theorem shift_store (x : Sharing ω ι) (id : PoolId) {f : Store ω ι → PoolId → Store ω ι}
    {g : Pool ι → Pool ι} (hf : f x.store id = match x.store.pool? id with
      | none => x.store
      | some p => x.store.setPool id (g p.pool))
    (hg : ∀ p n, p.Covers n → (g p).Covers n) (hmax : ∀ p, (g p).max = p.max) :
    x.Shift { x with store := f x.store id } := by
  rw [hf]
  cases hp : x.store.pool? id with
  | none => exact .refl x
  | some p => exact .changed x.store.world hp (hmax _) (fun h => hg _ _ h) fun i hi => rfl

theorem shift_step (x : Sharing ω ι) (m : Move ω ι) : x.Shift (x.step m) := by
  cases m with
  | world w => exact .world w
  | ask q f => exact x.shift_ask q f
  | pool name max f => exact .added name max f
  | seed id i => exact x.shift_store id (f := fun s id => s.seed id i) rfl (fun _ _ h => h.seed i) (·.max_seed i)
  | close id => exact x.shift_store id (f := Store.close) rfl (fun _ _ h => h.close) fun _ => rfl
  | borrow id => exact x.shift_borrow id
  | make borrower => exact x.shift_make borrower
  | release guard i =>
    refine x.shift_giveUp guard (f := fun s id => s.release id i) (g := (·.release i)) (fun id p hp => ?_)
      (fun _ _ h => h.release i) (·.max_release i)
    simp only [Store.release, hp]
  | discard guard =>
    refine x.shift_giveUp guard (f := Store.forget) (g := Pool.forget) (fun id p hp => ?_)
      (fun _ _ h => h.forget) fun _ => rfl
    simp only [Store.forget, hp]

/-- Binding a pooled action is a run of moves: a call of the factory, perhaps a question to a cache or a
pool of its own, and the offer of the instance. -/
theorem run_bindPooled {C : Type} [Host ω] [LocalAction ω ι C] (x : Sharing ω ι) (site : BindSite)
    (f : LocalFactory ω ι) (max : Option Nat) :
    ∃ ms, x.run ms = { x with
      store := (Manager.bindPooled (C := C) site f max x.store).2
      asked := x.asked ++ (Manager.wish? C site f max x.store).toList } := by
  cases hq : Manager.wish? C site f max x.store with
  | none =>
    rw [Option.toList_none, List.append_nil]
    rcases Manager.bindPooled_of_no_wish hq with h | ⟨name, m, i, h⟩
    · exact ⟨[.world (x.store.make f).2.world], by rw [h]; rfl⟩
    · exact ⟨[.world (x.store.make f).2.world, .pool name m f, .seed x.store.pools.size i], by rw [h]; rfl⟩
  | some q =>
    obtain ⟨i, c, hc, h⟩ := Manager.bindPooled_of_wish hq
    have hc' : (x.store.make f).2.cache? q.cache = some c := hc
    have hask (ms : List (Move ω ι)) : x.run (.world (x.store.make f).2.world :: .ask q f :: ms) =
        run { x with
          store := ((x.store.make f).2.poolFor q.cache c q.key q.kind q.max f).2
          asked := x.asked ++ [q] } ms := by
      simp only [run_cons, step, ask]
      rw [show ({ x.store with world := (x.store.make f).2.world } : Store ω ι) = (x.store.make f).2 from rfl,
        hc']
    rw [h, Option.toList_some]
    cases hr : (x.store.make f).2.poolFor q.cache c q.key q.kind q.max f with
    | mk a s =>
      cases a with
      | error e => exact ⟨_, (hask []).trans (by rw [hr]; rfl)⟩
      | ok id => exact ⟨_, (hask [.seed id i]).trans (by rw [hr]; rfl)⟩

/-- What a relation keeps at each move it keeps over a run. -/
theorem run_keeps {P : Sharing ω ι → Prop} {x : Sharing ω ι} (hx : P x)
    (h : ∀ y z, P y → y.Shift z → P z) (ms : List (Move ω ι)) : P (x.run ms) := by
  induction ms generalizing x with
  | nil => exact hx
  | cons m ms ih => exact ih (h x _ hx (x.shift_step m))

end Sharing
end Pipeworks
