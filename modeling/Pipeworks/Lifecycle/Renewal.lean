import Pipeworks.Lifecycle.Manager
import Pipeworks.Run.Blur
/-!
# Instances that start over

A factory that always makes the same instance, whose reset always brings it back, is as good as a pool of
its instances: a pool at rest holds copies of that one instance, and a use leaves it at rest
(`Serves.apply`). So an instance from the pool and an instance made for the call do the same, if neither
making nor resetting is seen.
-/

namespace Pipeworks

namespace Pool
variable {α σ : Type} {q : Pool α} {a : α}

/-- The pool is open, nothing is borrowed from it, and what is idle is all the same. -/
structure Rests (q : Pool α) (a : α) : Prop where
  isOpen : q.closed = false
  max_pos : 0 < q.max
  created : q.created = q.idle.length
  idle : ∀ b ∈ q.idle, b = a

theorem rests_new (name : String) (max : Nat) (a : α) : (new name max).Rests a where
  isOpen := rfl
  max_pos := Nat.lt_of_lt_of_le Nat.zero_lt_one (Nat.le_max_right max 1)
  created := rfl
  idle := nofun

theorem Rests.seed (h : q.Rests a) : (q.seed a).2.Rests a := by
  rcases Nat.lt_or_ge q.created q.max with hlt | hle
  · rw [seed_of_room h.isOpen hlt]
    refine ⟨h.isOpen, h.max_pos, ?_, fun b hb => ?_⟩
    · rw [h.created, List.length_append, List.length_singleton]
    · rcases List.mem_append.1 hb with hb | hb
      · exact h.idle b hb
      · exact List.mem_singleton.1 hb
  · rw [seed_of_no_room (.inr hle)]
    exact h

/-- A pool at rest serves a borrower, with an idle item or with a new one, and rests again once that is
back. -/
theorem Rests.borrow (h : q.Rests a) (make : σ → Made EngineError α × σ) (s : σ)
    (hm : (make s).1 = .made a) :
    ∃ rest t, q.borrow make s = (.item a, rest, t) ∧ (t = s ∨ t = (make s).2) ∧
      (rest.release a).Rests a := by
  cases hi : q.idle with
  | cons b rest =>
    obtain rfl : b = a := h.idle b (hi ▸ List.mem_cons_self)
    refine ⟨{ q with idle := rest }, s, ?_, .inl rfl, ?_⟩
    · simp only [Pool.borrow, take_of_idle h.isOpen hi]
    · rw [release_of_open (p := { q with idle := rest }) h.isOpen]
      refine ⟨h.isOpen, h.max_pos, ?_, fun c hc => ?_⟩
      · rw [h.created, hi, List.length_append, List.length_cons, List.length_singleton]
      · rcases List.mem_append.1 hc with hc | hc
        · exact h.idle c (hi ▸ List.mem_cons_of_mem b hc)
        · exact List.mem_singleton.1 hc
  | nil =>
    have hcreated : q.created = 0 := by rw [h.created, hi, List.length_nil]
    have hlt : q.created < q.max := hcreated ▸ h.max_pos
    refine ⟨{ q with created := q.created + 1 }, (make s).2, ?_, .inr rfl, ?_⟩
    · simp only [Pool.borrow, take_of_lt h.isOpen hi hlt, hm, finish]
    · rw [release_of_open (p := { q with created := q.created + 1 }) h.isOpen]
      refine ⟨h.isOpen, h.max_pos, ?_, fun c hc => ?_⟩
      · rw [hcreated, hi]
        rfl
      · rw [hi] at hc
        exact List.mem_singleton.1 hc

end Pool

namespace Blur
variable {ω ι : Type} [Host ω] (B : Blur ω) (C : Type) [LocalAction ω ι C]

/-- The factory always makes `i`, and a reset brings back `i` whatever it was applied to. -/
structure Renews (f : LocalFactory ω ι) (i : ι) : Prop where
  makes (w : ω) : (f w).1 = .made i
  making : B.Unseen fun w => (f w).2
  supportsReset : LocalAction.supportsReset ω C i = true
  respects : B.Respects fun (v : C) c w => (LocalAction.apply i v c w).1
  resets (v : C) (c : Control C) (w u : ω) :
    (LocalAction.reset C (LocalAction.apply i v c w).2 u).1 = .done ∧
      (LocalAction.reset C (LocalAction.apply i v c w).2 u).2.1 = i
  resetting (v : C) (c : Control C) (w : ω) :
    B.Unseen fun u => (LocalAction.reset C (LocalAction.apply i v c w).2 u).2.2

/-- A pool of the store is at rest with the instance that its factory makes. -/
def Serves (s : Store ω ι) (id : PoolId) (f : LocalFactory ω ι) : Prop :=
  ∃ i q, B.Renews C f i ∧ s.pool? id = some ⟨q, f⟩ ∧ q.Rests i

/-- The pools that are at rest in one store are so in the other. -/
def Keeps (s t : Store ω ι) : Prop := ∀ id f, B.Serves C s id f → B.Serves C t id f

variable {B C} {f : LocalFactory ω ι} {i j : ι} {s t u : Store ω ι} {id : PoolId}

theorem Renews.make_eq (h : B.Renews C f i) (s : Store ω ι) :
    s.make f = (.made i, { s with world := (f s.world).2 }) := by
  rw [← h.makes s.world]
  rfl

theorem Keeps.refl (s : Store ω ι) : B.Keeps C s s := fun _ _ h => h

theorem Keeps.trans (h : B.Keeps C s t) (h' : B.Keeps C t u) : B.Keeps C s u :=
  fun id f hs => h' id f (h id f hs)

theorem keeps_world (s : Store ω ι) (w : ω) : B.Keeps C s { s with world := w } := fun _ _ h => h

theorem keeps_of_pool? (h : ∀ id p, s.pool? id = some p → t.pool? id = some p) : B.Keeps C s t := by
  rintro id f ⟨i, q, hf, hq, hr⟩
  exact ⟨i, q, hf, h id _ hq, hr⟩

theorem keeps_push {p : InstancePool ω ι} (h : t.pools = s.pools.push p) : B.Keeps C s t := by
  refine keeps_of_pool? fun id r hr => ?_
  have hlt : id < s.pools.size := (Array.getElem?_eq_some_iff.1 hr).1
  rw [Store.pool?, h, Array.getElem?_push_lt hlt]
  exact (Array.getElem?_eq_getElem hlt).symm.trans hr

theorem keeps_setPool {q r : Pool ι} (hf : B.Renews C f i) (hq : s.pool? id = some ⟨q, f⟩)
    (hr : r.Rests i) : B.Keeps C s (s.setPool id r) := by
  rintro id' f' ⟨i', q', hf', hq', hr'⟩
  by_cases hid : id' = id
  · subst hid
    obtain ⟨rfl, rfl⟩ := InstancePool.mk.inj (Option.some.inj (hq.symm.trans hq'))
    exact ⟨i, r, hf, Store.pool?_setPool_self hq, hr⟩
  · refine ⟨i', q', hf', ?_, hr'⟩
    rw [Store.pool?_setPool_ne hid]
    exact hq'

/-! ### Uses -/

theorem Serves.borrow (h : B.Serves C s id f) :
    ∃ i q rest w, B.Renews C f i ∧ s.pool? id = some ⟨q, f⟩ ∧
      s.borrow id = (.item i, { s with world := w }.setPool id rest) ∧
      (w = s.world ∨ w = (f s.world).2) ∧ (rest.release i).Rests i := by
  obtain ⟨i, q, hf, hq, hr⟩ := h
  have hm : ((f s.world).1.mapError EngineError.action, (f s.world).2).1 = .made i := by
    rw [hf.makes]
    rfl
  obtain ⟨rest, w, hb, hw, hrest⟩ :=
    hr.borrow (fun w => ((f w).1.mapError EngineError.action, (f w).2)) s.world hm
  refine ⟨i, q, rest, w, hf, hq, ?_, hw, hrest⟩
  simp only [Store.borrow, hq, hb]

omit [Host ω] in
theorem useBorrowed_eq {rest : Pool ι} {v : C} {c : Control C} {a : Applied ω C} {w : ω}
    (hq : t.pool? id = some ⟨rest, f⟩) (ha : LocalAction.apply i v c t.world = (a, j))
    (hr : LocalAction.reset C j a.world = (.done, i, w)) (ho : a.outcome ≠ .blocked) :
    BoundAction.useBorrowed id i v c t =
      ⟨a.outcome, a.marks, { t with world := w }.setPool id (rest.release i)⟩ := by
  have hback : BoundAction.giveBack (C := C) id j { t with world := a.world } =
      (.done, { t with world := w }.setPool id (rest.release i)) := by
    have hq' : ({ t with world := w } : Store ω ι).pool? id = some ⟨rest, f⟩ := hq
    simp only [BoundAction.giveBack, hr, Store.release, hq']
  cases hout : a.outcome with
  | answered x => simp only [BoundAction.useBorrowed, ha, hout, hback, BoundAction.afterReset]
  | panicked x => simp only [BoundAction.useBorrowed, ha, hout, hback, BoundAction.afterReset]
  | blocked => exact absurd hout ho

/-- An instance from a pool at rest does what one made for the call does. The pool rests again behind the
use, unless that is blocked. -/
theorem Serves.apply (h : B.Serves C s id f) {c c' : Control C} {s' : Store ω ι} (hc : B.Like c c')
    (hw : B.world s.world s'.world) (style : InvokeStyle) (v : C) :
    let a := (BoundAction.pooled id style : BoundAction ω ι C).apply v c s
    let a' := (BoundAction.perRun f : BoundAction ω ι C).apply v c' s'
    a.outcome = a'.outcome ∧ a.marks = a'.marks ∧ B.world a.world.world a'.world.world ∧
      (a.outcome ≠ .blocked → B.Keeps C s a.world) := by
  obtain ⟨i, q, rest, w, hf, hq, hb, hwb, hrest⟩ := h.borrow
  have hwm : B.world w (f s'.world).2 := by
    rcases hwb with rfl | rfl
    · exact hf.making.right hw
    · exact hf.making.left (hf.making.right hw)
  intro a a'
  have ha' : a' = ⟨(LocalAction.apply i v c' (f s'.world).2).1.outcome,
      (LocalAction.apply i v c' (f s'.world).2).1.marks,
      { s' with world := (LocalAction.apply i v c' (f s'.world).2).1.world }⟩ := by
    simp only [a', BoundAction.apply, hf.make_eq]
  have ha : a = BoundAction.useBorrowed id i v c ({ s with world := w }.setPool id rest) := by
    simp only [a, BoundAction.apply, hb]
  obtain ⟨ho, hmk, hww⟩ := hf.respects v c c' w _ hc hwm
  rcases hap : LocalAction.apply i v c w with ⟨b, j⟩
  simp only [hap] at ho hmk hww
  rw [ha, ha']
  -- A use that is blocked is never reset, and its instance stays borrowed.
  by_cases hblk : b.outcome = .blocked
  · rw [BoundAction.useBorrowed_of_blocked hap hblk]
    exact ⟨hblk ▸ ho, hmk, hww, fun hne => absurd rfl hne⟩
  · obtain ⟨hdone, hback⟩ := hf.resets v c w b.world
    have hunseen := hf.resetting v c w
    simp only [hap] at hdone hback hunseen
    have hreset : LocalAction.reset C j b.world = (.done, i, (LocalAction.reset C j b.world).2.2) := by
      rw [← hdone, ← hback]
    have hpool : ({ s with world := w }.setPool id rest).pool? id = some ⟨rest, f⟩ :=
      Store.pool?_setPool_self hq
    rw [useBorrowed_eq hpool hap hreset hblk]
    refine ⟨ho, hmk, hunseen.left hww, fun _ => ?_⟩
    let x := (LocalAction.reset C j b.world).2.2
    have hstore : ({ ({ s with world := w }.setPool id rest) with world := x }).setPool id (rest.release i) =
        { s with world := x }.setPool id (rest.release i) :=
      Store.setPool_setPool (s := { s with world := x })
    have hkept : B.Keeps C { s with world := x } ({ s with world := x }.setPool id (rest.release i)) :=
      keeps_setPool hf hq hrest
    exact (keeps_world s x).trans (hstore ▸ hkept)

/-! ### Binding -/

/-- Under the keys that factories are declared for, a cache holds pools at rest that serve them. -/
structure Tended (B : Blur ω) (C : Type) [LocalAction ω ι C] (s : Store ω ι) (cache : Option CacheId)
    (D : CacheKey → Option (LocalFactory ω ι)) : Prop where
  served : ∀ {id key kind pool f}, cache = some id → s.filed? id key = some (kind, pool) →
    D key = some f →
    ∃ i, B.Renews C f i ∧
      kind = ⟨LocalAction.typeName ω C i, LocalAction.style ω C i, LocalAction.contextType ω ι C⟩ ∧
      B.Serves C s pool f

variable {cache : Option CacheId} {D : CacheKey → Option (LocalFactory ω ι)}

theorem tended_none : B.Tended C s none D := ⟨fun hid => nomatch hid⟩

theorem Tended.mono (h : B.Tended C s cache D) (hk : B.Keeps C s t) (hc : t.caches = s.caches) :
    B.Tended C t cache D := by
  refine ⟨fun {id key kind pool f} hid hfile hf => ?_⟩
  rw [Store.filed?_of_caches hc] at hfile
  obtain ⟨i, hi, hkind, hserves⟩ := h.served hid hfile hf
  exact ⟨i, hi, hkind, hk _ _ hserves⟩

theorem Renews.unique (h : B.Renews C f i) (h' : B.Renews C f j) (w : ω) : i = j :=
  Made.made.inj ((h.makes w).symm.trans (h'.makes w))

theorem Serves.seed (h : B.Serves C s id f) (hf : B.Renews C f i) :
    B.Serves C (s.seed id i) id f ∧ B.Keeps C s (s.seed id i) ∧ (s.seed id i).caches = s.caches ∧
      (s.seed id i).world = s.world := by
  obtain ⟨j, q, hj, hq, hr⟩ := h
  obtain rfl := hf.unique hj s.world
  simp only [Store.seed, hq]
  exact ⟨⟨i, _, hf, Store.pool?_setPool_self hq, hr.seed⟩, keeps_setPool hf hq hr.seed, rfl, rfl⟩

theorem Renews.poolAt (hf : B.Renews C f i) {site : BindSite} (ht : B.Tended C s site.cache D)
    (hD : D site.cacheKey = some f) (max : Option Nat) :
    ∃ id t, Manager.poolAt site ⟨LocalAction.typeName ω C i, LocalAction.style ω C i,
        LocalAction.contextType ω ι C⟩ max f s = (.ok id, t) ∧
      t.world = s.world ∧ B.Serves C t id f ∧ B.Keeps C s t ∧ B.Tended C t site.cache D := by
  -- A new pool is empty, and rests with any instance.
  have hnew {t : Store ω ι} {name : String} {m : Nat} (h : t.pools = s.pools.push ⟨.new name m, f⟩) :
      B.Serves C t s.pools.size f := by
    refine ⟨i, _, hf, ?_, Pool.rests_new name m i⟩
    rw [Store.pool?, h, Array.getElem?_push_size]
  cases hcache : site.cache.bind fun id => (s.cache? id).map (id, ·) with
  | none =>
    simp only [Manager.poolAt, hcache]
    exact ⟨_, _, rfl, rfl, hnew rfl, keeps_push rfl, ht.mono (keeps_push rfl) rfl⟩
  | some found =>
    obtain ⟨id, c⟩ := found
    obtain ⟨id', hid, hmap⟩ := Option.bind_eq_some_iff.1 hcache
    obtain ⟨c', hc, heq⟩ := Option.map_eq_some_iff.1 hmap
    cases heq
    simp only [Manager.poolAt, hcache]
    cases hfile : c.find? site.cacheKey with
    | none =>
      rw [Store.poolFor_of_none hfile]
      refine ⟨_, _, rfl, rfl, hnew rfl, keeps_push rfl, ⟨fun {id' key kind pool f'} hid' hfile' hf' => ?_⟩⟩
      obtain rfl := Option.some.inj (hid.symm.trans hid')
      by_cases hkey : site.cacheKey = key
      · subst hkey
        cases (Store.filed?_add_self hc hfile rfl).symm.trans hfile'
        obtain rfl := Option.some.inj (hD.symm.trans hf')
        exact ⟨i, hf, rfl, hnew rfl⟩
      · have hold := (Store.filed?_add_ne hc rfl fun h => hkey h.2).symm.trans hfile'
        obtain ⟨j, hj, hkind, hserves⟩ := ht.served hid' hold hf'
        exact ⟨j, hj, hkind, keeps_push rfl _ _ hserves⟩
    | some e =>
      obtain ⟨kind, pool⟩ := e
      obtain ⟨j, hj, rfl, hserves⟩ := ht.served hid ((Store.filed?_eq_find? hc _).trans hfile) hD
      obtain rfl := hf.unique hj s.world
      rw [Store.poolFor_of_same hfile]
      exact ⟨pool, s, rfl, rfl, hserves, .refl s, ht⟩

/-- Where the cache of a site is tended, a pooled action can be bound to a pool that serves its factory. -/
theorem Renews.bindPooled (hf : B.Renews C f i) {site : BindSite} (ht : B.Tended C s site.cache D)
    (hD : D site.cacheKey = some f) (max : Option Nat) :
    ∃ id style t, Manager.bindPooled (C := C) site f max s = (.ok (.pooled id style), t) ∧
      t.world = (f s.world).2 ∧ B.Serves C t id f ∧ B.Keeps C s t ∧ B.Tended C t site.cache D := by
  have hmade := keeps_world (B := B) (C := C) s (f s.world).2
  obtain ⟨id, t, hat, hw, hserves, hk, ht⟩ := hf.poolAt (ht.mono hmade rfl) hD max
  obtain ⟨hserves', hk', hcaches, hw'⟩ := hserves.seed hf
  refine ⟨id, LocalAction.style ω C i, t.seed id i, ?_, hw'.trans hw, hserves', (hmade.trans hk).trans hk',
    ht.mono hk' hcaches⟩
  have hres : (!LocalAction.supportsReset ω C i) = false := by rw [hf.supportsReset]; rfl
  simp only [Manager.bindPooled, hf.make_eq, hres, Bool.false_eq_true, if_false, hat]

/-- One bound action does in the store what the other one does in a store that is not told apart: the same
shared action, or instances of one factory, made for the call or taken from a pool. -/
inductive Twin (B : Blur ω) (C : Type) [LocalAction ω ι C] (s : Store ω ι) :
    BoundAction ω ι C → BoundAction ω ι C → Prop
  | shared {a : Action ω C} (h : B.Respects a.apply) : Twin B C s (.shared a) (.shared a)
  | perRun {f : LocalFactory ω ι} {i : ι} (h : B.Renews C f i) : Twin B C s (.perRun f) (.perRun f)
  | pooled {f : LocalFactory ω ι} {id : PoolId} (style : InvokeStyle) (h : B.Serves C s id f) :
    Twin B C s (.pooled id style) (.perRun f)

variable {b b' : BoundAction ω ι C}

theorem Twin.mono (h : B.Twin C s b b') (hk : B.Keeps C s t) : B.Twin C t b b' := by
  cases h with
  | shared h => exact .shared h
  | perRun h => exact .perRun h
  | pooled style h => exact .pooled style (hk _ _ h)

theorem Twin.apply (h : B.Twin C s b b') {c c' : Control C} {s' : Store ω ι} (hc : B.Like c c')
    (hw : B.world s.world s'.world) (v : C) :
    (b.apply v c s).outcome = (b'.apply v c' s').outcome ∧
      (b.apply v c s).marks = (b'.apply v c' s').marks ∧
      B.world (b.apply v c s).world.world (b'.apply v c' s').world.world ∧
      ((b.apply v c s).outcome ≠ .blocked → B.Keeps C s (b.apply v c s).world) := by
  cases h with
  | pooled style h => exact h.apply hc hw style v
  | shared h =>
    obtain ⟨ho, hm, hw'⟩ := h v c c' _ _ hc hw
    exact ⟨ho, hm, hw', fun _ => keeps_world s _⟩
  | @perRun f i h =>
    obtain ⟨ho, hmk, hw'⟩ := h.respects v c c' _ _ hc (h.making.left (h.making.right hw))
    simp only [BoundAction.apply, h.make_eq]
    exact ⟨ho, hmk, hw', fun _ => keeps_world s _⟩

end Blur
end Pipeworks
