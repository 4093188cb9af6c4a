import Mathlib.Data.List.Perm.Basic
import Pipeworks.Pool.Basic
/-!
# Pools and their clients

A pool together with what its clients are doing. A client goes through one section of the pool at a
time, and between two sections of one client those of others may come: a borrower makes its instance
with the lock released, one that found the pool exhausted waits to be woken, and whoever wakes it does
so behind the section. `Move` is one such step of one client. A run is any list of moves; a move that
is not possible changes nothing.
-/

namespace Pipeworks

/-- An instance, and the number under which it came to the pool. -/
structure Piece (α : Type) where
  serial : Nat
  item : α

structure Traffic (α : Type) where
  pool : Pool (Piece α)
  /-- What is borrowed, one entry for each guard. -/
  lent : List (Piece α)
  /-- Borrowers that reserved a slot and whose call of the factory has not ended. -/
  making : Nat
  /-- Borrowers that wait and were not woken. -/
  asleep : Nat
  /-- Borrowers that were woken and have not looked again. -/
  woken : Nat
  /-- Wake-ups of one borrower that are still to be given. -/
  signals : Nat
  /-- Wake-ups of all borrowers that are still to be given. -/
  alarms : Nat
  /-- Instances that came to the pool so far. -/
  count : Nat
  /-- Instances that are gone. -/
  dropped : List (Piece α)
  /-- Calls of the factory that panicked. -/
  panics : Nat

namespace Traffic
variable {α : Type}

/-- A new pool without clients. -/
def start (name : String) (max : Nat) : Traffic α :=
  { pool := .new name max, lent := [], making := 0, asleep := 0, woken := 0, signals := 0, alarms := 0
    count := 0, dropped := [], panics := 0 }

inductive Move (α : Type) where
  /-- A borrower comes, and waits if the pool is exhausted. -/
  | borrow
  /-- A borrower comes, and leaves if the pool is exhausted. -/
  | tryBorrow
  /-- A borrower that was woken looks again. -/
  | recheck
  /-- A borrower that waits wakes up by itself. -/
  | stir
  /-- A call of the factory ends. -/
  | make (m : Made EngineError α)
  /-- The holder of a guard changes the instance. -/
  | change (guard : Nat) (f : α → α)
  | release (guard : Nat)
  | discard (guard : Nat)
  | seed (a : α)
  | close
  /-- A wake-up of one borrower is given. -/
  | signal
  /-- A wake-up of all borrowers is given. -/
  | alarm

/-- What a borrower does that finds the pool as it is. -/
def look (t : Traffic α) (waits : Bool) : Traffic α :=
  match t.pool.take with
  | .closed => t
  | .idle a rest => { t with pool := rest, lent := t.lent ++ [a] }
  | .reserved rest => { t with pool := rest, making := t.making + 1 }
  | .exhausted => { t with asleep := t.asleep + waits.toNat }

/-- What a borrower does whose call of the factory ended. -/
def finish (t : Traffic α) (m : Made EngineError α) : Traffic α :=
  let (b, pool) := t.pool.finish (m.map (Piece.mk t.count))
  let t := { t with pool := pool, making := t.making - 1 }
  match b with
  | .item a => { t with lent := t.lent ++ [a], count := t.count + 1 }
  | .refused _ => { t with signals := t.signals + 1 }
  | .panicked _ => { t with panics := t.panics + 1 }
  | .exhausted => t

def change (t : Traffic α) (guard : Nat) (f : α → α) : Traffic α :=
  { t with lent := t.lent.modify guard fun p => { p with item := f p.item } }

/-- A guard is dropped. Nobody is woken for an instance that a closed pool drops. -/
def release (t : Traffic α) (guard : Nat) : Traffic α :=
  match t.lent[guard]? with
  | none => t
  | some a =>
    let t' := { t with pool := t.pool.release a, lent := t.lent.eraseIdx guard }
    if t.pool.closed then { t' with dropped := t.dropped ++ [a] }
    else { t' with signals := t.signals + 1 }

def discard (t : Traffic α) (guard : Nat) : Traffic α :=
  match t.lent[guard]? with
  | none => t
  | some a =>
    { t with pool := t.pool.forget, lent := t.lent.eraseIdx guard, dropped := t.dropped ++ [a]
             signals := t.signals + 1 }

def seed (t : Traffic α) (a : α) : Traffic α :=
  match t.pool.seed ⟨t.count, a⟩ with
  | (true, pool) => { t with pool := pool, count := t.count + 1, signals := t.signals + 1 }
  | (false, pool) =>
    { t with pool := pool, count := t.count + 1, dropped := t.dropped ++ [⟨t.count, a⟩] }

def close (t : Traffic α) : Traffic α :=
  { t with pool := t.pool.close, dropped := t.dropped ++ t.pool.idle, alarms := t.alarms + 1 }

/-- Wakes up to `n` of the borrowers that wait. -/
def wake (t : Traffic α) (n : Nat) : Traffic α :=
  { t with asleep := t.asleep - n, woken := t.woken + min n t.asleep }

def step (t : Traffic α) : Move α → Traffic α
  | .borrow => t.look true
  | .tryBorrow => t.look false
  | .recheck => if t.woken = 0 then t else { t with woken := t.woken - 1 }.look true
  | .stir => t.wake 1
  | .make m => if t.making = 0 then t else t.finish m
  | .change guard f => t.change guard f
  | .release guard => t.release guard
  | .discard guard => t.discard guard
  | .seed a => t.seed a
  | .close => t.close
  | .signal => if t.signals = 0 then t else { t with signals := t.signals - 1 }.wake 1
  | .alarm => if t.alarms = 0 then t else { t with alarms := t.alarms - 1 }.wake t.asleep

def run (t : Traffic α) (ms : List (Move α)) : Traffic α := ms.foldl step t

@[simp] theorem run_nil (t : Traffic α) : t.run [] = t := rfl

@[simp] theorem run_cons (t : Traffic α) (m : Move α) (ms : List (Move α)) :
    t.run (m :: ms) = (t.step m).run ms := rfl

theorem run_append (t : Traffic α) (ms ns : List (Move α)) : t.run (ms ++ ns) = (t.run ms).run ns :=
  List.foldl_append

/-- The moves that give all wake-ups which are still to be given. -/
def due (t : Traffic α) : List (Move α) :=
  List.replicate t.alarms .alarm ++ List.replicate t.signals .signal

/-- A run in which nothing comes between a section and the wake-ups behind it. -/
def runPrompt (t : Traffic α) (ms : List (Move α)) : Traffic α :=
  ms.foldl (fun t m => (t.step m).run (t.step m).due) t

/-! ### What a move does -/

/-- All that a move can do to a pool and its clients. `w` is what is left of the borrowers that were
woken, one fewer if the move was that of such a borrower. -/
inductive Shift (t : Traffic α) : Traffic α → Prop where
  | nothing : Shift t t
  | lent {w : Nat} {a : Piece α} {rest : List (Piece α)} (hw : t.woken ≤ w + 1)
    (hc : t.pool.closed = false) (hi : t.pool.idle = a :: rest) :
    Shift t { t with woken := w, pool := { t.pool with idle := rest }, lent := t.lent ++ [a] }
  | reserved {w : Nat} (hw : t.woken ≤ w + 1) (hc : t.pool.closed = false) (hi : t.pool.idle = [])
    (hlt : t.pool.created < t.pool.max) :
    Shift t { t with
      woken := w, pool := { t.pool with created := t.pool.created + 1 }, making := t.making + 1 }
  | exhausted {w : Nat} (n : Nat) (hc : t.pool.closed = false) (hi : t.pool.idle = [])
    (hle : t.pool.max ≤ t.pool.created) : Shift t { t with woken := w, asleep := t.asleep + n }
  | turnedAway {w : Nat} (hc : t.pool.closed = true) : Shift t { t with woken := w }
  | made {n : Nat} (a : α) (hm : t.making = n + 1) :
    Shift t { t with making := n, lent := t.lent ++ [⟨t.count, a⟩], count := t.count + 1 }
  | refused {n : Nat} (hm : t.making = n + 1) :
    Shift t { t with making := n, pool := t.pool.forget, signals := t.signals + 1 }
  | panicked {n : Nat} (hm : t.making = n + 1) :
    Shift t { t with making := n, panics := t.panics + 1 }
  | changed {l : List (Piece α)} (h : l.map (·.serial) = t.lent.map (·.serial)) :
    Shift t { t with lent := l }
  | returned {a : Piece α} {l : List (Piece α)} (h : t.lent.Perm (a :: l)) (hc : t.pool.closed = false) :
    Shift t { t with
      pool := { t.pool with idle := t.pool.idle ++ [a] }, lent := l, signals := t.signals + 1 }
  | tooLate {a : Piece α} {l : List (Piece α)} (h : t.lent.Perm (a :: l)) (hc : t.pool.closed = true) :
    Shift t { t with pool := t.pool.forget, lent := l, dropped := t.dropped ++ [a] }
  | discarded {a : Piece α} {l : List (Piece α)} (h : t.lent.Perm (a :: l)) :
    Shift t { t with
      pool := t.pool.forget, lent := l, dropped := t.dropped ++ [a], signals := t.signals + 1 }
  | seeded (a : α) (hc : t.pool.closed = false) (hlt : t.pool.created < t.pool.max) :
    Shift t { t with
      pool := { t.pool with idle := t.pool.idle ++ [⟨t.count, a⟩], created := t.pool.created + 1 }
      count := t.count + 1, signals := t.signals + 1 }
  | noRoom (a : α) : Shift t { t with count := t.count + 1, dropped := t.dropped ++ [⟨t.count, a⟩] }
  | closed : Shift t t.close
  | roused {n s l : Nat} (hs : t.signals ≤ s + n) (hle : l ≤ t.alarms)
    (hl : l < t.alarms → t.asleep ≤ n) : Shift t ({ t with signals := s, alarms := l }.wake n)

theorem shift_look (t : Traffic α) {w : Nat} (hw : t.woken ≤ w + 1) (waits : Bool) :
    t.Shift ({ t with woken := w }.look waits) := by
  unfold look
  cases hc : t.pool.closed with
  | true =>
    rw [Pool.take_of_closed hc]
    exact .turnedAway hc
  | false =>
    cases hi : t.pool.idle with
    | cons a rest =>
      rw [Pool.take_of_idle hc hi]
      exact .lent hw hc hi
    | nil =>
      rcases Nat.lt_or_ge t.pool.created t.pool.max with hlt | hle
      · rw [Pool.take_of_lt hc hi hlt]
        exact .reserved hw hc hi hlt
      · rw [Pool.take_of_le hc hi hle]
        exact .exhausted _ hc hi hle

theorem shift_finish (t : Traffic α) (h : t.making ≠ 0) (m : Made EngineError α) :
    t.Shift (t.finish m) := by
  have hm : t.making = t.making - 1 + 1 := (Nat.succ_pred h).symm
  cases m with
  | made a => exact .made a hm
  | refused e => exact .refused hm
  | panicked x => exact .panicked hm

theorem perm_eraseIdx {l : List (Piece α)} {i : Nat} {a : Piece α} (h : l[i]? = some a) :
    l.Perm (a :: l.eraseIdx i) := by
  obtain ⟨hi, rfl⟩ := List.getElem?_eq_some_iff.1 h
  exact (List.getElem_cons_eraseIdx_perm hi).symm

theorem shift_release (t : Traffic α) (guard : Nat) : t.Shift (t.release guard) := by
  unfold release
  split
  · exact .nothing
  · rename_i a ha
    cases hc : t.pool.closed with
    | true =>
      rw [Pool.release_of_closed hc]
      exact .tooLate (perm_eraseIdx ha) hc
    | false =>
      rw [Pool.release_of_open hc]
      exact .returned (perm_eraseIdx ha) hc

theorem shift_discard (t : Traffic α) (guard : Nat) : t.Shift (t.discard guard) := by
  unfold discard
  split
  · exact .nothing
  · exact .discarded (perm_eraseIdx ‹_›)

theorem shift_change (t : Traffic α) (guard : Nat) (f : α → α) : t.Shift (t.change guard f) := by
  refine .changed (List.ext_getElem? fun i => ?_)
  rw [List.getElem?_map, List.getElem?_map, List.getElem?_modify]
  cases t.lent[i]? with
  | none => rfl
  | some p => by_cases h : guard = i <;> simp [h]

theorem shift_seed (t : Traffic α) (a : α) : t.Shift (t.seed a) := by
  unfold seed
  by_cases h : t.pool.closed = true ∨ t.pool.max ≤ t.pool.created
  · rw [Pool.seed_of_no_room h]
    exact .noRoom a
  · obtain ⟨hc, hle⟩ := not_or.1 h
    have hc : t.pool.closed = false := Bool.eq_false_iff.2 hc
    have hlt : t.pool.created < t.pool.max := Nat.lt_of_not_le hle
    rw [Pool.seed_of_room hc hlt]
    exact .seeded a hc hlt

theorem shift_step (t : Traffic α) (m : Move α) : t.Shift (t.step m) := by
  cases m with
  | borrow => exact t.shift_look (Nat.le_succ _) true
  | tryBorrow => exact t.shift_look (Nat.le_succ _) false
  | recheck =>
    by_cases h : t.woken = 0
    · simpa only [step, h, if_true] using Shift.nothing
    · simpa only [step, h, if_false] using t.shift_look (w := t.woken - 1) (by omega) true
  | stir => exact .roused (Nat.le_succ _) (Nat.le_refl _) fun h => absurd h (Nat.lt_irrefl _)
  | make m =>
    by_cases h : t.making = 0
    · simpa only [step, h, if_true] using Shift.nothing
    · simpa only [step, h, if_false] using t.shift_finish h m
  | change guard f => exact t.shift_change guard f
  | release guard => exact t.shift_release guard
  | discard guard => exact t.shift_discard guard
  | seed a => exact t.shift_seed a
  | close => exact .closed
  | signal =>
    by_cases h : t.signals = 0
    · simpa only [step, h, if_true] using Shift.nothing
    · simpa only [step, h, if_false] using
        Shift.roused (n := 1) (by omega) (Nat.le_refl _) fun h => absurd h (Nat.lt_irrefl _)
  | alarm =>
    by_cases h : t.alarms = 0
    · simpa only [step, h, if_true] using Shift.nothing
    · simpa only [step, h, if_false] using
        Shift.roused (n := t.asleep) (Nat.le_add_right ..) (Nat.sub_le ..) fun _ => Nat.le_refl _

/-- What every move keeps holds behind every run. -/
theorem run_keeps {P : Traffic α → Prop} {t : Traffic α} (h : P t)
    (hs : ∀ t t', P t → t.Shift t' → P t') (ms : List (Move α)) : P (t.run ms) := by
  induction ms generalizing t with
  | nil => exact h
  | cons m ms ih => exact ih (hs t _ h (t.shift_step m))

end Traffic
end Pipeworks
