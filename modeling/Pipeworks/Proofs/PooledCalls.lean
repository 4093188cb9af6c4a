import Pipeworks.Lifecycle.Amid
import Pipeworks.Bench
import Pipeworks.Proofs.CleanInstances

/-!
# Calls of pooled actions

`pooled_call`: what a call of a pooled action comes to, whatever state its pool is in, whatever its instance
does and whatever others do in between. `Borrows` says what a borrower finds and leaves, `Settles` how the
answer follows from the application and the reset, and `Returns` what becomes of the instance; `PooledCall`
puts them together. A call leaves as many instances out of the pool as it found (`PooledCall.out`).
-/

namespace Pipeworks

/-- The slots that a borrow takes in its pool. That of an instance whose factory panicked stays taken. -/
def Borrowed.slots {α : Type} : Borrowed α → Nat
  | item _ | panicked _ => 1
  | refused _ | exhausted => 0

namespace Pool
variable {α : Type} {p q : Pool α} {n : Nat} {a : α}

/-- A borrower has to wait. -/
structure Exhausted (p : Pool α) : Prop where
  opened : p.closed = false
  idle : p.idle = []
  full : p.max ≤ p.created

/-- Of the instances that the pool counts, `n` are not in it. -/
def Out (p : Pool α) (n : Nat) : Prop := p.created = p.idle.length + n

/-- What becomes of a pool when an instance comes back to it behind its reset. -/
inductive Returns (p : Pool α) (a : α) : ResetOutcome → Pool α → Prop
  | back (hc : p.closed = false) : Returns p a .done { p with idle := p.idle ++ [a] }
  | late (hc : p.closed = true) : Returns p a .done { p with created := p.created - 1 }
  | dropped (e : ActionError) : Returns p a (.failed e) { p with created := p.created - 1 }
  | lost (text : String) : Returns p a (.panicked text) { p with created := p.created - 1 }

theorem Out.forget (h : p.Out (n + 1)) : p.forget.Out n := by
  unfold Out Pool.forget at *
  simp only
  omega

theorem Out.close (h : p.Out n) : p.close.Out n := by
  unfold Out Pool.close at *
  simp only [List.length_nil]
  omega

theorem Out.returns {r : ResetOutcome} (h : p.Out (n + 1)) (hr : p.Returns a r q) : q.Out n := by
  cases hr with
  | back hc =>
    unfold Out at *
    simp only [List.length_append, List.length_singleton]
    omega
  | late hc | dropped e | lost text => exact h.forget

end Pool

/-! ### Borrowing -/

/-- The pool stays in its place. -/
def KeepsPool {ω ι : Type} (id : PoolId) (f : Store ω ι → Store ω ι) : Prop :=
  ∀ s p, s.pool? id = some p → ∃ q, (f s).pool? id = some q

/-- As many instances are out of the pool as before. -/
def EvensPool {ω ι : Type} (id : PoolId) (f : Store ω ι → Store ω ι) : Prop :=
  ∀ s p n, s.pool? id = some p → p.pool.Out n → ∃ q, (f s).pool? id = some q ∧ q.pool.Out n

namespace Store
variable {ω ι : Type} {s t u : Store ω ι} {id : PoolId} {p q r : InstancePool ω ι} {o : Others ω ι}

theorem pool?_close (hp : s.pool? id = some p) (other : PoolId) : (s.close other).pool? id = some p ∨
    (s.close other).pool? id = some { p with pool := p.pool.close } := by
  by_cases h : id = other
  · subst h
    refine .inr ?_
    simp only [close, hp]
    exact pool?_setPool_self hp
  · refine .inl ?_
    simp only [close]
    split
    · exact hp
    · rw [pool?_setPool_ne h]
      exact hp

theorem keepsPool_close (id other : PoolId) : KeepsPool id (fun s : Store ω ι => s.close other) :=
  fun _ _ hp => (pool?_close hp other).elim (fun h => ⟨_, h⟩) fun h => ⟨_, h⟩

/-- A borrower that first comes in `s`, and waits as long as the pool is exhausted, looks at the pool `q` in
`t`. -/
inductive Looks (id : PoolId) :
    List (Store ω ι → Store ω ι) → Store ω ι → Store ω ι → InstancePool ω ι → Prop
  | now {waits : List (Store ω ι → Store ω ι)} {s : Store ω ι} {q : InstancePool ω ι}
    (hq : s.pool? id = some q) : Looks id waits s s q
  | again {f : Store ω ι → Store ω ι} {waits : List (Store ω ι → Store ω ι)} {s t : Store ω ι}
    {p q : InstancePool ω ι} (hp : s.pool? id = some p) (he : p.pool.Exhausted) (h : Looks id waits (f s) t q) :
    Looks id (f :: waits) s t q

/-- A borrower that finds the pool `q` in `t` without an instance but with room reserves a slot, and its factory
comes to `m`. The pool is `r` when the borrow ends in `u`. -/
structure Makes (o : Others ω ι) (id : PoolId) (q : InstancePool ω ι) (t : Store ω ι) (m : Made ActionError ι)
    (r : InstancePool ω ι) (u : Store ω ι) : Prop where
  opened : q.pool.closed = false
  idle : q.pool.idle = []
  room : q.pool.created < q.pool.max
  made : ∃ w,
    q.factory (o.reserved (t.setPool id { q.pool with created := q.pool.created + 1 })).world = (m, w) ∧
    u = o.made { o.reserved (t.setPool id { q.pool with created := q.pool.created + 1 }) with world := w }
  pool : u.pool? id = some r

/-- What a borrower that finds the pool `q` in `t` comes to, and the store behind the borrow. -/
inductive Finds (o : Others ω ι) (id : PoolId) (q : InstancePool ω ι) (t : Store ω ι) :
    Borrowed ι → Store ω ι → Prop
  | closed (hc : q.pool.closed = true) :
    Finds o id q t (.refused (.interrupted s!"action pool '{q.pool.name}' closed while waiting")) t
  | waiting (he : q.pool.Exhausted) : Finds o id q t .exhausted t
  | idle {i : ι} {rest : List ι} (hc : q.pool.closed = false) (hi : q.pool.idle = i :: rest) :
    Finds o id q t (.item i) (t.setPool id { q.pool with idle := rest })
  | made {i : ι} {r : InstancePool ω ι} {u : Store ω ι} (hm : Makes o id q t (.made i) r u) :
    Finds o id q t (.item i) u
  | refused {e : ActionError} {r : InstancePool ω ι} {u : Store ω ι} (hm : Makes o id q t (.refused e) r u) :
    Finds o id q t (.refused (.action e)) (u.setPool id r.pool.forget)
  | panicked {text : String} {r : InstancePool ω ι} {u : Store ω ι} (hm : Makes o id q t (.panicked text) r u) :
    Finds o id q t (.panicked text) u

/-- What a borrower that comes in `s` comes to in the end. -/
def Borrows (o : Others ω ι) (id : PoolId) (s : Store ω ι) (b : Borrowed ι) (u : Store ω ι) : Prop :=
  ∃ t q, Looks id o.waiting s t q ∧ Finds o id q t b u

theorem Looks.pool? {waits : List (Store ω ι → Store ω ι)} (h : Looks id waits s t q) : t.pool? id = some q := by
  induction h with
  | now hq => exact hq
  | again hp he h ih => exact ih

theorem finds_look (hq : t.pool? id = some q) (hreserved : KeepsPool id o.reserved)
    (hmade : KeepsPool id o.made) : Finds o id q t (t.look o id).1 (t.look o id).2 := by
  simp only [look, hq]
  cases hc : q.pool.closed with
  | true =>
    rw [Pool.take_of_closed hc]
    exact .closed hc
  | false =>
    cases hi : q.pool.idle with
    | cons i rest =>
      rw [Pool.take_of_idle hc hi]
      exact .idle hc hi
    | nil =>
      rcases Nat.lt_or_ge q.pool.created q.pool.max with hroom | hfull
      · rw [Pool.take_of_lt hc hi hroom]
        let slot := o.reserved (t.setPool id { q.pool with created := q.pool.created + 1 })
        rcases hm : q.factory slot.world with ⟨m, w⟩
        obtain ⟨r₁, hr₁⟩ := hreserved _ _ (pool?_setPool_self hq)
        obtain ⟨r, hr⟩ := hmade { slot with world := w } r₁ hr₁
        have hmakes : Makes o id q t m r (o.made { slot with world := w }) :=
          ⟨hc, hi, hroom, ⟨w, hm, rfl⟩, hr⟩
        simp only [makeAmid_eq hm hr]
        cases m with
        | made i =>
          rw [show (r.pool.finish ((Made.made i).mapError .action)).2 = r.pool from rfl, setPool_self hr]
          exact .made hmakes
        | refused e => exact .refused hmakes
        | panicked text =>
          rw [show (r.pool.finish ((Made.panicked text).mapError .action)).2 = r.pool from rfl, setPool_self hr]
          exact .panicked hmakes
      · rw [Pool.take_of_le hc hi hfull]
        exact .waiting ⟨hc, hi, hfull⟩

theorem exists_looks {waits : List (Store ω ι → Store ω ι)} (hp : s.pool? id = some p)
    (hkeeps : ∀ f ∈ waits, KeepsPool id f) (hreserved : KeepsPool id o.reserved) (hmade : KeepsPool id o.made) :
    ∃ t q, Looks id waits s t q ∧
      Finds o id q t (s.borrowAmid o id waits).1 (s.borrowAmid o id waits).2 := by
  have hlook := finds_look hp hreserved hmade
  induction waits generalizing s p with
  | nil => exact ⟨s, p, .now hp, hlook⟩
  | cons f waits ih =>
    by_cases hb : (s.look o id).1 = .exhausted
    · rw [hb] at hlook
      generalize (s.look o id).2 = u at hlook
      cases hlook with
      | waiting he =>
        obtain ⟨p', hp'⟩ := hkeeps f List.mem_cons_self s p hp
        obtain ⟨t, q, hl, hfinds⟩ := ih hp' (fun g hg => hkeeps g (List.mem_cons_of_mem f hg))
          (finds_look hp' hreserved hmade)
        refine ⟨t, q, .again hp he hl, ?_⟩
        rw [borrowAmid_of_exhausted hb]
        exact hfinds
    · rw [borrowAmid_of_found hb]
      exact ⟨s, p, .now hp, hlook⟩

theorem exists_borrows (hp : s.pool? id = some p) (ho : ∀ f ∈ o.gaps, KeepsPool id f) :
    Borrows o id s (s.borrowAmid o id o.waiting).1 (s.borrowAmid o id o.waiting).2 :=
  exists_looks hp (fun f hf => ho f (Others.waiting_mem hf)) (ho _ o.reserved_mem) (ho _ o.made_mem)

/-! ### What is out of a pool -/

theorem Looks.out {waits : List (Store ω ι → Store ω ι)} {n : Nat} (h : Looks id waits s t q)
    (hevens : ∀ f ∈ waits, EvensPool id f) (hp : s.pool? id = some p) (hn : p.pool.Out n) : q.pool.Out n := by
  induction h generalizing p with
  | now hq =>
    obtain rfl := Option.some.inj (hp.symm.trans hq)
    exact hn
  | @again f waits s t p' q hp' he h ih =>
    obtain ⟨r, hr, hout⟩ := hevens f List.mem_cons_self s p n hp hn
    exact ih (fun g hg => hevens g (List.mem_cons_of_mem f hg)) hr hout

theorem Makes.out {m : Made ActionError ι} {n : Nat} (h : Makes o id q t m r u)
    (hreserved : EvensPool id o.reserved) (hmade : EvensPool id o.made) (hq : t.pool? id = some q)
    (hn : q.pool.Out n) : r.pool.Out (n + 1) := by
  obtain ⟨w, -, rfl⟩ := h.made
  have hslot : ({ q.pool with created := q.pool.created + 1 } : Pool ι).Out (n + 1) := by
    unfold Pool.Out at *
    simp only
    omega
  obtain ⟨r₁, hr₁, hout₁⟩ := hreserved _ _ _ (pool?_setPool_self hq) hslot
  obtain ⟨r₂, hr₂, hout₂⟩ := hmade { o.reserved _ with world := w } r₁ _ hr₁ hout₁
  obtain rfl := Option.some.inj (hr₂.symm.trans h.pool)
  exact hout₂

theorem Finds.out {b : Borrowed ι} {n : Nat} (h : Finds o id q t b u) (hreserved : EvensPool id o.reserved)
    (hmade : EvensPool id o.made) (hq : t.pool? id = some q) (hn : q.pool.Out n) :
    ∃ r, u.pool? id = some r ∧
      r.pool.Out (n + b.slots) := by
  cases h with
  | closed hc => exact ⟨q, hq, hn⟩
  | waiting he => exact ⟨q, hq, hn⟩
  | @idle i rest hc hi =>
    refine ⟨_, pool?_setPool_self hq, ?_⟩
    unfold Pool.Out at *
    rw [hi, List.length_cons] at hn
    simp only [Borrowed.slots]
    omega
  | made hm => exact ⟨_, hm.pool, hm.out hreserved hmade hq hn⟩
  | refused hm => exact ⟨_, pool?_setPool_self hm.pool, (hm.out hreserved hmade hq hn).forget⟩
  | panicked hm => exact ⟨_, hm.pool, hm.out hreserved hmade hq hn⟩

end Store

/-! ### Calls -/

/-- How the answer of a call follows from what became of the application and of the reset. -/
inductive Settles {C : Type} : Outcome C → ResetOutcome → Outcome C → Prop
  | kept (o : Outcome C) : Settles o .done o
  | ok (v : C) (e : ActionError) : Settles (.answered (.ok v)) (.failed e) (.fault (.failed e))
  | jump (signal : JumpSignal) (e : ActionError) : Settles (.fault (.jump signal)) (.failed e) (.fault (.failed e))
  | failed {f g : ActionError} (e : ActionError) (hm : g.message = f.message)
    (hs : g.suppressed = f.suppressed ++ [e]) : Settles (.fault (.failed f)) (.failed e) (.fault (.failed g))
  | abort (f : EngineError) (e : ActionError) : Settles (.fault (.abort f)) (.failed e) (.fault (.abort f))
  | panicked (text : String) (e : ActionError) : Settles (.panicked text) (.failed e) (.panicked text)
  | resetPanicked (o : Outcome C) (text : String) : Settles o (.panicked text) (.panicked text)

theorem settles_afterReset {C : Type} {o : Outcome C} (ho : o ≠ .blocked) (r : ResetOutcome) :
    Settles o r (BoundAction.afterReset o r) := by
  cases r with
  | done => exact .kept o
  | panicked text => exact .resetPanicked o text
  | failed e =>
    cases o using Outcome.byFault with
    | next v => exact .ok v e
    | failed f => exact .failed e (ActionError.message_suppress f e) (ActionError.suppressed_suppress f e)
    | jump signal => exact .jump signal e
    | abort f => exact .abort f e
    | panicked text => exact .panicked text e
    | blocked => exact absurd rfl ho

open Store

/-- What a call of a pooled action comes to: its outcome, the marks it leaves on the control, and the store. -/
inductive PooledCall {ω ι C : Type} [LocalAction ω ι C] (o : Others ω ι) (id : PoolId) (ctx : C)
    (control : Control C) (s : Store ω ι) : Outcome C → Control.Marks → Store ω ι → Prop
  /-- The pool is closed. -/
  | closed {text : String} {t : Store ω ι} (hb : Borrows o id s (.refused (.interrupted text)) t) :
    PooledCall o id ctx control s (.fault (.abort (.interrupted text))) .none t
  /-- The factory of the pool fails. -/
  | refused {e : ActionError} {t : Store ω ι} (hb : Borrows o id s (.refused (.action e)) t) :
    PooledCall o id ctx control s (.fault (.failed e)) .none t
  /-- The factory of the pool panics. -/
  | unmade {text : String} {t : Store ω ι} (hb : Borrows o id s (.panicked text) t) :
    PooledCall o id ctx control s (.panicked text) .none t
  /-- The call still waits for an instance. -/
  | waiting {t : Store ω ι} (hb : Borrows o id s .exhausted t) : PooledCall o id ctx control s .blocked .none t
  /-- The instance has not answered yet. -/
  | unanswered {i j : ι} {t : Store ω ι} {a : Applied ω C} (hb : Borrows o id s (.item i) t)
    (ha : LocalAction.apply i ctx control (o.borrowed t).world = (a, j)) (ho : a.outcome = .blocked) :
    PooledCall o id ctx control s .blocked a.marks (o.applied { o.borrowed t with world := a.world })
  /-- The instance `i` is applied once, and then reset once; `k` is what goes back. -/
  | used {i j k : ι} {t u v : Store ω ι} {a : Applied ω C} {r : ResetOutcome} {w : ω} {q : InstancePool ω ι}
    {back : Pool ι} {out : Outcome C} (hb : Borrows o id s (.item i) t)
    (ha : LocalAction.apply i ctx control (o.borrowed t).world = (a, j)) (ho : a.outcome ≠ .blocked)
    (hu : u = o.applied { o.borrowed t with world := a.world })
    (hr : LocalAction.reset C j u.world = (r, k, w)) (hv : v = o.reset { u with world := w })
    (hq : v.pool? id = some q) (hback : q.pool.Returns k r back) (hout : Settles a.outcome r out) :
    PooledCall o id ctx control s out a.marks (v.setPool id back)

section
variable {ω ι C : Type} [LocalAction ω ι C] {o : Others ω ι} {id : PoolId} {ctx : C} {control : Control C}
  {s t : Store ω ι} {p q : InstancePool ω ι} {answer : Outcome C} {marks : Control.Marks} {n : Nat}

theorem Store.Borrows.pool? {b : Borrowed ι} (h : Borrows o id s b t) : ∃ r, t.pool? id = some r := by
  obtain ⟨u, q, hl, hf⟩ := h
  cases hf with
  | closed hc => exact ⟨q, hl.pool?⟩
  | waiting he => exact ⟨q, hl.pool?⟩
  | idle hc hi => exact ⟨_, pool?_setPool_self hl.pool?⟩
  | made hm => exact ⟨_, hm.pool⟩
  | refused hm => exact ⟨_, pool?_setPool_self hm.pool⟩
  | panicked hm => exact ⟨_, hm.pool⟩

theorem Store.takeBack_eq (hq : t.pool? id = some q) (k : ι) (r : ResetOutcome) :
    ∃ back, t.takeBack id k r = t.setPool id back ∧ q.pool.Returns k r back := by
  cases r with
  | done =>
    refine ⟨q.pool.release k, by simp only [takeBack, release, hq], ?_⟩
    cases hc : q.pool.closed with
    | true =>
      rw [Pool.release_of_closed hc]
      exact .late hc
    | false =>
      rw [Pool.release_of_open hc]
      exact .back hc
  | failed e => exact ⟨q.pool.forget, by simp only [takeBack, forget, hq], .dropped e⟩
  | panicked text => exact ⟨q.pool.forget, by simp only [takeBack, forget, hq], .lost text⟩

theorem pooledCall_applyAmid (hp : s.pool? id = some p) (ho : ∀ f ∈ o.gaps, KeepsPool id f) (ctx : C)
    (control : Control C) :
    let a := BoundAction.applyAmid o id ctx control s
    PooledCall o id ctx control s a.outcome a.marks a.world := by
  have hborrows := exists_borrows hp ho
  rcases hbt : s.borrowAmid o id o.waiting with ⟨b, t⟩
  rw [hbt] at hborrows
  have hb : Borrows o id s b t := hborrows
  simp only [BoundAction.applyAmid, hbt]
  cases b with
  | refused e =>
    obtain ⟨u, q, hl, hf⟩ := hb
    cases hf with
    | closed hc => exact .closed ⟨_, q, hl, .closed hc⟩
    | refused hm => exact .refused ⟨_, q, hl, .refused hm⟩
  | panicked text => exact .unmade hb
  | exhausted => exact .waiting hb
  | item i =>
    dsimp only
    rcases ha : LocalAction.apply i ctx control (o.borrowed t).world with ⟨a, j⟩
    by_cases hout : a.outcome = .blocked
    · rw [BoundAction.useAmid_of_blocked ha hout]
      exact .unanswered hb ha hout
    · let u := o.applied { o.borrowed t with world := a.world }
      rcases hr : LocalAction.reset C j u.world with ⟨r, k, w⟩
      -- The pool stays in its place up to the way back.
      obtain ⟨q₁, hq₁⟩ := hb.pool?
      obtain ⟨q₂, hq₂⟩ := ho o.borrowed o.borrowed_mem t q₁ hq₁
      obtain ⟨q₃, hq₃⟩ := ho o.applied o.applied_mem { o.borrowed t with world := a.world } q₂ hq₂
      obtain ⟨q, hq⟩ := ho o.reset o.reset_mem { u with world := w } q₃ hq₃
      obtain ⟨back, hback, hreturns⟩ := takeBack_eq hq k r
      rw [BoundAction.useAmid_of_reset _ ha hout hr, hback]
      exact .used hb ha hout rfl hr rfl hq hreturns (settles_afterReset hout r)

theorem Store.Borrows.out {b : Borrowed ι} (h : Borrows o id s b t) (ho : ∀ f ∈ o.gaps, EvensPool id f)
    (hp : s.pool? id = some p) (hn : p.pool.Out n) : ∃ r, t.pool? id = some r ∧
      r.pool.Out (n + b.slots) := by
  obtain ⟨u, q, hl, hf⟩ := h
  exact hf.out (ho _ o.reserved_mem) (ho _ o.made_mem) hl.pool?
    (hl.out (fun f hf => ho f (Others.waiting_mem hf)) hp hn)

/-- A call that has ended leaves as many instances out of the pool as before, unless the factory panicked. -/
theorem PooledCall.out (h : PooledCall o id ctx control s answer marks t) (ho : ∀ f ∈ o.gaps, EvensPool id f)
    (hp : s.pool? id = some p) (hn : p.pool.Out n) (hout : answer ≠ .blocked) :
    ∃ q, t.pool? id = some q ∧
      (q.pool.Out n ∨ q.pool.Out (n + 1) ∧ ∃ text, Borrows o id s (.panicked text) t) := by
  cases h with
  | closed hb | refused hb =>
    obtain ⟨q, hq, hn⟩ := hb.out ho hp hn
    exact ⟨q, hq, .inl hn⟩
  | unmade hb =>
    obtain ⟨q, hq, hn⟩ := hb.out ho hp hn
    exact ⟨q, hq, .inr ⟨hn, _, hb⟩⟩
  | waiting hb => exact absurd rfl hout
  | unanswered hb ha ho => exact absurd rfl hout
  | @used i j k t u v a r w q back out hb ha hne hu hr hv hq hback hsettles =>
    subst hu hv
    obtain ⟨q₁, hq₁, hn₁⟩ := hb.out ho hp hn
    obtain ⟨q₂, hq₂, hn₂⟩ := ho o.borrowed o.borrowed_mem t q₁ _ hq₁ hn₁
    obtain ⟨q₃, hq₃, hn₃⟩ :=
      ho o.applied o.applied_mem { o.borrowed t with world := a.world } q₂ _ hq₂ hn₂
    obtain ⟨q₄, hq₄, hn₄⟩ := ho o.reset o.reset_mem
      { o.applied { o.borrowed t with world := a.world } with world := w } q₃ _ hq₃ hn₃
    obtain rfl := Option.some.inj (hq.symm.trans hq₄)
    exact ⟨_, pool?_setPool_self hq, .inl (hn₄.returns hback)⟩

/-- Calls of pooled actions, end to end. A call amid others whose pool stays in its place comes to what
`PooledCall` says. It is refused where the pool is closed or the factory fails, and then nothing is applied and
nothing is reset. Otherwise its instance is applied once and then reset once, whatever the application came to: an
instance that was reset goes to the end of the queue, or is dropped if the pool is closed by then, and one that was
not is dropped; the answer follows from both outcomes. If the others leave as many instances out of the pool as
they find, so does the call once it has ended; only the slot of an instance whose factory panicked is lost. With
nobody else at the pools this is what a bound action does, and no use is left behind. -/
theorem pooled_call (hp : s.pool? id = some p) (ho : ∀ f ∈ o.gaps, KeepsPool id f) (ctx : C)
    (control : Control C) :
    let a := BoundAction.applyAmid o id ctx control s
    PooledCall o id ctx control s a.outcome a.marks a.world ∧
    ((∀ f ∈ o.gaps, EvensPool id f) → ∀ n, p.pool.Out n → a.outcome ≠ .blocked →
      ∃ q, a.world.pool? id = some q ∧
        (q.pool.Out n ∨ q.pool.Out (n + 1) ∧ ∃ text, Borrows o id s (.panicked text) a.world)) ∧
    (∀ style, (BoundAction.pooled id style).apply ctx control s =
      BoundAction.applyAmid .nobody id ctx control s) ∧
    (∀ (u : Usage ω ι) style,
      let a := (BoundAction.pooled id style).apply ctx control u.store
      ∃ ms : List (Usage.Move ω ι C), (u.run ms).store = a.world ∧ (u.run ms).making = u.making ∧
        (a.outcome ≠ .blocked → (u.run ms).uses = u.uses)) := by
  have hcall := pooledCall_applyAmid hp ho ctx control
  exact ⟨hcall, fun hevens n hn hout => hcall.out hevens hp hn hout,
    fun style => (BoundAction.applyAmid_nobody id style ctx control s).symm,
    fun u style => Usage.run_apply u (.pooled id style) ctx control⟩

end

/-- An instance that does as it says. -/
structure Rigged where
  outcome : Outcome Nat
  reset : ResetOutcome

instance : LocalAction Bench Rigged Nat where
  contextType := "Nat"
  apply i _ _ w := (⟨i.outcome, .none, w⟩, i)
  reset i w := (i.reset, i, w)
  supportsReset _ := true
  typeName _ := "Rigged"
  style _ := .controlled

/-- An instance that fails and cannot be reset, in a pool that is closed while it is applied. -/
theorem pooled_call_rigged :
    let e : ActionError := .new "no"
    let f : ActionError := .new "stuck"
    let i : Rigged := ⟨.fault (.failed e), .failed f⟩
    let s : Store Bench Rigged := ⟨.new 1, #[⟨⟨"rigged", 1, [i], 1, false⟩, fun w => (.made i, w)⟩], #[]⟩
    let o : Others Bench Rigged := { Others.nobody with applied := fun s => s.close 0 }
    let control : Control Nat := .fresh "p" none (.numbered 0) 0
    let a := BoundAction.applyAmid o 0 1 control s
    (∀ f ∈ o.gaps, KeepsPool 0 f) ∧ PooledCall o 0 1 control s a.outcome a.marks a.world ∧
      a.outcome = .fault (.failed (e.suppress f)) ∧
      ∃ q, a.world.pool? 0 = some q ∧ q.pool.closed = true ∧ q.pool.created = 0 ∧ q.pool.Out 0 := by
  intro e f i s o control a
  have hid : KeepsPool 0 (id : Store Bench Rigged → Store Bench Rigged) := fun s p hp => ⟨p, hp⟩
  have hkeeps : ∀ f ∈ o.gaps, KeepsPool 0 f := by
    intro g hg
    rcases Others.mem_gaps.1 hg with hg | rfl | rfl | rfl | rfl | rfl
    · cases hg
    · exact hid
    · exact hid
    · exact hid
    · exact keepsPool_close 0 0
    · exact hid
  obtain ⟨hcall, -⟩ := pooled_call (s := s) (p := ⟨⟨"rigged", 1, [i], 1, false⟩, fun w => (.made i, w)⟩) rfl
    hkeeps 1 control
  exact ⟨hkeeps, hcall, rfl, _, rfl, rfl, rfl, rfl⟩

end Pipeworks
