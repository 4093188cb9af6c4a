import Pipeworks.Action.Instance
import Pipeworks.Text.Quoted
/-!
# Bounded pools

A pool keeps idle instances and counts the instances that exist: those idle, those borrowed and those
being made. Each operation here is one section under the pool's lock. An instance is made with the
lock released, between `take`, which reserves its slot, and the end of the borrow.
-/

namespace Pipeworks

structure Pool (α : Type) where
  name : String
  max : Nat
  idle : List α
  created : Nat
  closed : Bool

/-- What a borrower finds. -/
inductive Take (α : Type) where
  | closed
  | idle (a : α) (rest : Pool α)
  | reserved (rest : Pool α)
  | exhausted

/-- Whether the borrower gets an instance or the slot for one. -/
def Take.serves {α : Type} : Take α → Bool
  | .closed | .exhausted => false
  | .idle .. | .reserved _ => true

/-- What becomes of a borrow. -/
inductive Borrowed (α : Type) where
  | item (a : α)
  | refused (e : EngineError)
  | panicked (text : String)
  | exhausted

namespace Pool
variable {α : Type}

/-- An open pool of at most `max` instances, at least one. -/
def new (name : String) (max : Nat) : Pool α :=
  { name := name, max := Nat.max max 1, idle := [], created := 0, closed := false }

def available (p : Pool α) : Nat := p.idle.length

def closedError (p : Pool α) : EngineError :=
  .interrupted s!"action pool '{p.name}' closed while waiting"

/-- The longest idle instance, or a slot for a new one. -/
def take (p : Pool α) : Take α :=
  if p.closed then .closed
  else
    match p.idle with
    | a :: rest => .idle a { p with idle := rest }
    | [] => if p.created < p.max then .reserved { p with created := p.created + 1 } else .exhausted

/-- Gives up a slot whose instance is not coming back. -/
def forget (p : Pool α) : Pool α := { p with created := p.created - 1 }

/-- Takes an instance back, to the end of the queue. A closed pool drops it. -/
def release (p : Pool α) (a : α) : Pool α :=
  if p.closed then p.forget else { p with idle := p.idle ++ [a] }

/-- Adds an instance made elsewhere if there is a free slot. -/
def seed (p : Pool α) (a : α) : Bool × Pool α :=
  if p.closed ∨ p.max ≤ p.created then (false, p)
  else (true, { p with idle := p.idle ++ [a], created := p.created + 1 })

/-- Closes the pool and drops its idle instances. -/
def close (p : Pool α) : Pool α :=
  { p with closed := true, created := p.created - p.idle.length, idle := [] }

/-- The end of a borrow that made its own instance. A refusal gives the slot back. -/
def finish (p : Pool α) : Made EngineError α → Borrowed α × Pool α
  | .made a => (.item a, p)
  | .refused e => (.refused e, p.forget)
  | .panicked t => (.panicked t, p)

/-- A borrow with nobody else at the pool: `make` makes a new instance where one is due. -/
def borrow {σ : Type} (p : Pool α) (make : σ → Made EngineError α × σ) (s : σ) :
    Borrowed α × Pool α × σ :=
  match p.take with
  | .closed => (.refused p.closedError, p, s)
  | .idle a rest => (.item a, rest, s)
  | .reserved rest =>
    let (m, s) := make s
    let (b, rest) := rest.finish m
    (b, rest, s)
  | .exhausted => (.exhausted, p, s)

def describe (p : Pool α) : String :=
  s!"ActionPool \x7b name: {Text.quoted p.name}, max: {p.max}, created: {p.created}, " ++
    s!"available: {p.available}, closed: {p.closed} \x7d"

/-! ### What a section finds -/

section
variable {p : Pool α} {a : α} {rest : List α}

theorem take_of_closed (hc : p.closed = true) : p.take = .closed := by
  rw [take, if_pos hc]

theorem take_of_idle (hc : p.closed = false) (hi : p.idle = a :: rest) :
    p.take = .idle a { p with idle := rest } := by
  rw [take, hc, hi, if_neg Bool.false_ne_true]

theorem take_of_lt (hc : p.closed = false) (hi : p.idle = []) (h : p.created < p.max) :
    p.take = .reserved { p with created := p.created + 1 } := by
  rw [take, hc, hi, if_neg Bool.false_ne_true]
  exact if_pos h

theorem take_of_le (hc : p.closed = false) (hi : p.idle = []) (h : p.max ≤ p.created) :
    p.take = .exhausted := by
  rw [take, hc, hi, if_neg Bool.false_ne_true]
  exact if_neg (Nat.not_lt.2 h)

theorem idle_of_take {q : Pool α} (h : p.take = .idle a q) : p.idle = a :: q.idle := by
  unfold take at h
  split at h
  · nomatch h
  · split at h
    · cases h
      assumption
    · split at h <;> nomatch h

theorem idle_of_reserved {q : Pool α} (h : p.take = .reserved q) : q.idle = p.idle := by
  unfold take at h
  split at h
  · nomatch h
  · split at h
    · nomatch h
    · split at h
      · cases h
        rfl
      · nomatch h

theorem serves_take (hc : p.closed = false) :
    p.take.serves = true ↔ p.idle ≠ [] ∨ p.created < p.max := by
  cases hi : p.idle with
  | cons a rest => simp [take_of_idle hc hi, Take.serves]
  | nil =>
    rcases Nat.lt_or_ge p.created p.max with h | h
    · simp [take_of_lt hc hi h, Take.serves, h]
    · simp [take_of_le hc hi h, Take.serves, h]

theorem release_of_closed (hc : p.closed = true) (a : α) : p.release a = p.forget := by
  rw [release, if_pos hc]

theorem release_of_open (hc : p.closed = false) (a : α) :
    p.release a = { p with idle := p.idle ++ [a] } := by
  rw [release, hc, if_neg Bool.false_ne_true]

theorem seed_of_room (hc : p.closed = false) (h : p.created < p.max) (a : α) :
    p.seed a = (true, { p with idle := p.idle ++ [a], created := p.created + 1 }) := by
  rw [seed, if_neg]
  rw [hc]
  exact not_or.2 ⟨Bool.false_ne_true, Nat.not_le.2 h⟩

theorem seed_of_no_room (h : p.closed = true ∨ p.max ≤ p.created) (a : α) :
    p.seed a = (false, p) := by
  rw [seed, if_pos h]

theorem idle_finish (m : Made EngineError α) : (p.finish m).2.idle = p.idle := by
  cases m <;> rfl

theorem mem_idle_release {b : α} (h : b ∈ (p.release a).idle) : b ∈ p.idle ∨ b = a := by
  unfold release at h
  split at h
  · exact .inl h
  · simpa using h

theorem mem_idle_seed {b : α} (h : b ∈ (p.seed a).2.idle) : b ∈ p.idle ∨ b = a := by
  unfold seed at h
  split at h
  · exact .inl h
  · simpa using h

end

end Pool
end Pipeworks
