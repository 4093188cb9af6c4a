import Pipeworks.Proofs.PoolSafety
import Pipeworks.Proofs.Wakeups
/-!
# What a closed pool hands out

A closed pool turns away whoever looks at it, and has nothing idle (`Shut`). But a call of the factory that
was under way when the pool was closed goes on, and its end does not look whether the pool is closed:
`closed_pool_serves_calls_under_way` bounds what such a pool still hands out by the number of these calls,
and `instance_from_closed_pool` shows one. Once they have ended and no guard is left, the count is the
number of the calls that panicked.
-/

namespace Pipeworks

/-- Whether a borrow ended with an instance. -/
def Borrowed.isItem {α : Type} : Borrowed α → Bool
  | .item _ => true
  | .refused _ | .panicked _ | .exhausted => false

namespace Traffic
variable {α : Type} {t t' : Traffic α}

/-- How a borrow ends with one look at the pool, if it does. One that waits goes on, and so does one that
reserved a slot. -/
def seen (t : Traffic α) (waits : Bool) : Option (Borrowed (Piece α)) :=
  match t.pool.take with
  | .closed => some (.refused t.pool.closedError)
  | .idle a _ => some (.item a)
  | .reserved _ => none
  | .exhausted => if waits then none else some .exhausted

/-- How a borrow ends with a move, if one does. -/
def reply (t : Traffic α) : Move α → Option (Borrowed (Piece α))
  | .borrow => t.seen true
  | .tryBorrow => t.seen false
  | .recheck => if t.woken = 0 then none else t.seen true
  | .make m => if t.making = 0 then none else some (t.pool.finish (m.map (Piece.mk t.count))).1
  | _ => none

/-- How the borrows end that come to their ends in a run. -/
def replies : Traffic α → List (Move α) → List (Borrowed (Piece α))
  | _, [] => []
  | t, m :: ms => (t.reply m).toList ++ (t.step m).replies ms

/-! ### Closed pools -/

/-- The pool is closed and has nothing idle. -/
structure Shut (t : Traffic α) : Prop where
  closed : t.pool.closed = true
  idle : t.pool.idle = []

theorem shut_close (t : Traffic α) : (t.step .close).Shut := ⟨rfl, rfl⟩

theorem Shut.shift (h : t.Shut) (hs : t.Shift t') : t'.Shut := by
  obtain ⟨hc, hi⟩ := h
  cases hs with
  | lent hw ho | reserved hw ho | exhausted n ho | returned hp ho | seeded a ho =>
    rw [hc] at ho
    nomatch ho
  | closed => exact ⟨rfl, rfl⟩
  | _ => exact ⟨hc, hi⟩

theorem Shut.run (h : t.Shut) (ms : List (Move α)) : (t.run ms).Shut :=
  run_keeps h (fun _ _ h hs => h.shift hs) ms

theorem Shut.seen (h : t.Shut) (waits : Bool) : t.seen waits = some (.refused t.pool.closedError) := by
  rw [Traffic.seen, Pool.take_of_closed h.closed]

theorem Shut.making_le (h : t.Shut) (hs : t.Shift t') : t'.making ≤ t.making := by
  cases hs with
  | reserved hw ho =>
    rw [h.closed] at ho
    nomatch ho
  | made _ hm | refused hm | panicked hm => exact hm ▸ Nat.le_succ _
  | _ => exact Nat.le_refl _

/-- A borrow that ends at a closed pool is refused, unless it was making its instance. -/
theorem Shut.reply (h : t.Shut) {m : Move α} {b : Borrowed (Piece α)} (hb : t.reply m = some b) :
    b = .refused t.pool.closedError ∨
      ∃ x, m = .make x ∧ 0 < t.making ∧ b = (t.pool.finish (x.map (Piece.mk t.count))).1 := by
  cases m with
  | borrow | tryBorrow => exact .inl (Option.some.inj (hb.symm.trans (h.seen _)))
  | recheck =>
    rw [Traffic.reply, h.seen] at hb
    split at hb
    · cases hb
    · exact .inl (Option.some.inj hb.symm)
  | make x =>
    rw [Traffic.reply] at hb
    split at hb
    · cases hb
    · exact .inr ⟨x, rfl, Nat.pos_of_ne_zero ‹_›, Option.some.inj hb.symm⟩
  | stir | change | release | discard | seed | close | signal | alarm => cases hb

theorem Shut.item_le (h : t.Shut) (m : Move α) :
    (t.reply m).toList.countP Borrowed.isItem + (t.step m).making ≤ t.making := by
  have hle := h.making_le (t.shift_step m)
  cases hb : t.reply m with
  | none => simpa using hle
  | some b =>
    rcases h.reply hb with rfl | ⟨x, rfl, hm, rfl⟩
    · simpa [Borrowed.isItem] using hle
    · have hstep : (t.step (.make x)).making = t.making - 1 := by
        rw [step, if_neg (Nat.pos_iff_ne_zero.1 hm)]
        cases x <;> rfl
      have hone := List.countP_le_length (p := Borrowed.isItem)
        (l := [(t.pool.finish (x.map (Piece.mk t.count))).1])
      rw [List.length_singleton] at hone
      rw [Option.toList_some, hstep]
      omega

theorem Shut.items_le (h : t.Shut) (ms : List (Move α)) :
    (t.replies ms).countP Borrowed.isItem + (t.run ms).making ≤ t.making := by
  induction ms generalizing t with
  | nil => exact Nat.le_of_eq (Nat.zero_add _)
  | cons m ms ih =>
    have hone := h.item_le m
    have hrest := ih (h.shift (t.shift_step m))
    rw [replies, List.countP_append, run_cons]
    omega

theorem Shut.cleared (h : t.Shut) (ha : t.Alert) : (t.step .alarm).Cleared := by
  rcases Nat.eq_zero_or_pos t.alarms with hz | hpos
  · have hstep : t.step .alarm = t := if_pos hz
    have hsleep : t.asleep = 0 := by
      by_contra hne
      exact absurd (ha.alarmed h.closed (Nat.pos_of_ne_zero hne)) (hz ▸ Nat.lt_irrefl 0)
    rw [hstep]
    exact ⟨h.closed, hsleep⟩
  · exact cleared_alarm ha hpos

theorem name_run (t : Traffic α) (ms : List (Move α)) : (t.run ms).pool.name = t.pool.name :=
  run_keeps (P := fun t' => t'.pool.name = t.pool.name) rfl (fun _ _ h hs => by cases hs <;> exact h) ms

/-- What a pool hands out once it is closed. It stays closed and empty. Whoever looks at it is turned away,
and nobody waits behind its wake-up. The borrows that end with an instance are calls of the factory that
were under way when it was closed, and all of these that come to an instance get it. The count is the
number of guards, of such calls that have not ended, and of calls that panicked. -/
theorem closed_pool_serves_calls_under_way (name : String) (max : Nat) (before after : List (Move α)) :
    let t := (start name max).run (before ++ [.close])
    let u := t.run after
    u.pool.closed = true ∧ u.pool.idle = [] ∧
    (∀ waits, u.seen waits = some (.refused (.interrupted s!"action pool '{name}' closed while waiting"))) ∧
    (∀ m b, u.reply m = some b → b = .refused u.pool.closedError ∨
      ∃ x, m = .make x ∧ 0 < u.making ∧ b = (u.pool.finish (x.map (Piece.mk u.count))).1) ∧
    (0 < u.making → ∀ a, u.reply (.make (.made a)) = some (.item ⟨u.count, a⟩)) ∧
    (t.replies after).countP Borrowed.isItem + u.making ≤ t.making ∧
    (.alarm ∈ after → u.asleep = 0) ∧
    u.pool.created = u.lent.length + u.making + u.panics := by
  intro t u
  have ht : t.Shut := by
    show ((start name max).run (before ++ [.close])).Shut
    rw [run_append]
    exact shut_close _
  have hu : u.Shut := ht.run after
  have hname : u.pool.name = name := by
    show (t.run after).pool.name = name
    rw [name_run, name_run]
    rfl
  have hrun (ms : List (Move α)) : t.run ms = (start name max).run (before ++ [.close] ++ ms) :=
    (run_append ..).symm
  have hslots : u.Slots := by
    rw [show u = _ from hrun after]
    exact slots_run name max _
  refine ⟨hu.closed, hu.idle, fun waits => ?_, fun m b => hu.reply, fun hm a => ?_, ht.items_le after,
    fun hal => ?_, ?_⟩
  · rw [hu.seen, Pool.closedError, hname]
  · exact if_neg (Nat.pos_iff_ne_zero.1 hm)
  · obtain ⟨l, r, rfl⟩ := List.append_of_mem hal
    have halert : (t.run l).Alert := by
      rw [hrun]
      exact alert_run name max _
    have hcleared : u.Cleared := by
      show (t.run (l ++ .alarm :: r)).Cleared
      rw [run_append, run_cons]
      exact run_keeps ((ht.run l).cleared halert) (fun _ _ h hs => h.shift hs) r
    exact hcleared.2
  · have hn := hslots.counted
    rw [hu.idle, List.length_nil, Nat.zero_add] at hn
    exact hn

/-- A pool that is closed while its factory is called hands out what the factory makes, and one whose
factory panicked counts an instance that nobody has. -/
theorem instance_from_closed_pool :
    let t := (start "p" 1 : Traffic Unit).run [.borrow, .close]
    let u := (start "p" 1 : Traffic Unit).run [.borrow, .make (.panicked "no instance"), .close]
    t.pool.closed = true ∧ t.lent.length = 0 ∧ (t.step (.make (.made ()))).lent.length = 1 ∧
      ((t.reply (.make (.made ()))).map Borrowed.isItem = some true) ∧
      u.lent.length = 0 ∧ u.making = 0 ∧ u.pool.created = 1 := by
  decide

end Traffic
end Pipeworks
