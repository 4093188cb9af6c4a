import Pipeworks.Lifecycle.Recorded
/-!
# Uses of pooled instances

`Usage` is a store whose instances are recorded, together with the uses of them that are under way. One
use borrows an instance, applies it, resets it and gives it back; the sections of many uses come in any
order, and so does what binding an action does to the store: `Move` is one of these. A run is any list
of moves; a move that is not possible changes nothing.
-/

namespace Pipeworks

/-- How far a use has come. -/
inductive Stage where
  | lent
  | applied
  | reset (r : ResetOutcome)

/-- What a use has done to its instance so far. -/
def Stage.deeds : Stage → List Deed
  | lent => []
  | applied => [.applied]
  | reset r => [.applied, .reset r]

structure Use (ι : Type) where
  pool : PoolId
  item : Recorded ι
  /-- What was done to the instance before it was borrowed. -/
  before : List Deed
  stage : Stage

def Use.start {ι : Type} (pool : PoolId) (i : Recorded ι) : Use ι := ⟨pool, i, i.deeds, .lent⟩

/-- The use that begins with a borrow, if it came to an instance. -/
def Use.begun {ι : Type} (pool : PoolId) : Borrowed (Recorded ι) → List (Use ι)
  | .item i => [.start pool i]
  | .refused _ | .panicked _ | .exhausted => []

structure Usage (ω ι : Type) where
  store : Store ω (Recorded ι)
  /-- The pools of the borrowers whose call of the factory has not ended. -/
  making : List PoolId
  uses : List (Use ι)
  /-- The uses that gave their instances back or dropped them. -/
  ended : List (Use ι)

namespace Usage
variable {ω ι C : Type}

/-- A world without pools. -/
def start (w : ω) : Usage ω ι := { store := .ofWorld w, making := [], uses := [], ended := [] }

inductive Move (ω ι C : Type) where
  /-- Something else happens in the world. -/
  | world (w : ω)
  /-- The caches change. -/
  | caches (cs : Array PoolCache)
  /-- A pool is made. -/
  | pool (name : String) (max : Nat) (factory : LocalFactory ω ι)
  /-- An instance that was made for a binding is put into a pool. -/
  | seed (pool : PoolId) (i : ι)
  | close (pool : PoolId)
  /-- A borrower comes to a pool. One that finds it exhausted may come again. -/
  | borrow (pool : PoolId)
  /-- The factory is called for a borrower, and its borrow ends. -/
  | make (borrower : Nat)
  | apply (use : Nat) (ctx : C) (control : Control C)
  | reset (use : Nat)
  | giveBack (use : Nat)

def borrow (u : Usage ω ι) (id : PoolId) : Usage ω ι :=
  match u.store.pool? id with
  | none => u
  | some p =>
    match p.pool.take with
    | .closed | .exhausted => u
    | .idle i rest => { u with store := u.store.setPool id rest, uses := u.uses ++ [.start id i] }
    | .reserved rest => { u with store := u.store.setPool id rest, making := u.making ++ [id] }

def make (u : Usage ω ι) (borrower : Nat) : Usage ω ι :=
  match u.making[borrower]? with
  | none => u
  | some id =>
    match u.store.pool? id with
    | none => u
    | some p =>
      let (m, w) := p.factory u.store.world
      let (b, q) := p.pool.finish (m.mapError .action)
      { u with
        store := { u.store with world := w }.setPool id q, making := u.making.eraseIdx borrower
        uses := u.uses ++ Use.begun id b }

/-- The instance of a use is applied, whatever the outcome is. -/
def apply [LocalAction ω ι C] (u : Usage ω ι) (use : Nat) (ctx : C) (control : Control C) :
    Usage ω ι :=
  match u.uses[use]? with
  | some ⟨pool, i, before, .lent⟩ =>
    let (a, i) := LocalAction.apply i ctx control u.store.world
    { u with
      store := { u.store with world := a.world }, uses := u.uses.set use ⟨pool, i, before, .applied⟩ }
  | _ => u

variable (C) in
def reset [LocalAction ω ι C] (u : Usage ω ι) (use : Nat) : Usage ω ι :=
  match u.uses[use]? with
  | some ⟨pool, i, before, .applied⟩ =>
    let (r, i, w) := LocalAction.reset C i u.store.world
    { u with
      store := { u.store with world := w }, uses := u.uses.set use ⟨pool, i, before, .reset r⟩ }
  | _ => u

/-- The store behind a reset. Only an instance whose reset was successful goes back. -/
def takeBack (s : Store ω (Recorded ι)) (pool : PoolId) (i : Recorded ι) :
    ResetOutcome → Store ω (Recorded ι)
  | .done => s.release pool i
  | .failed _ | .panicked _ => s.forget pool

/-- The end of a use. -/
def giveBack (u : Usage ω ι) (use : Nat) : Usage ω ι :=
  match u.uses[use]? with
  | some ⟨pool, i, before, .reset r⟩ =>
    { u with
      store := takeBack u.store pool i r, uses := u.uses.eraseIdx use
      ended := u.ended ++ [⟨pool, i, before, .reset r⟩] }
  | _ => u

def step [LocalAction ω ι C] (u : Usage ω ι) : Move ω ι C → Usage ω ι
  | .world w => { u with store := { u.store with world := w } }
  | .caches cs => { u with store := { u.store with caches := cs } }
  | .pool name max factory =>
    { u with store := (u.store.addPool ⟨.new name max, Recorded.factory factory⟩).2 }
  | .seed id i => { u with store := u.store.seed id (.new i) }
  | .close id => { u with store := u.store.close id }
  | .borrow id => u.borrow id
  | .make borrower => u.make borrower
  | .apply use ctx control => u.apply use ctx control
  | .reset use => u.reset C use
  | .giveBack use => u.giveBack use

def run [LocalAction ω ι C] (u : Usage ω ι) (ms : List (Move ω ι C)) : Usage ω ι := ms.foldl step u

@[simp] theorem run_nil [LocalAction ω ι C] (u : Usage ω ι) : u.run ([] : List (Move ω ι C)) = u := rfl

@[simp] theorem run_cons [LocalAction ω ι C] (u : Usage ω ι) (m : Move ω ι C) (ms : List (Move ω ι C)) :
    u.run (m :: ms) = (u.step m).run ms := rfl

theorem run_append [LocalAction ω ι C] (u : Usage ω ι) (ms ns : List (Move ω ι C)) :
    u.run (ms ++ ns) = (u.run ms).run ns :=
  List.foldl_append

/-! ### The last borrower and the last use -/

theorem eraseIdx_last {α : Type} (l : List α) (a : α) : (l ++ [a]).eraseIdx l.length = l := by
  rw [List.eraseIdx_append_of_length_le (Nat.le_refl _), Nat.sub_self]
  exact List.append_nil l

section
variable {u : Usage ω ι} (us : List (Use ι)) (ids : List PoolId) {id : PoolId}
  {i j : Recorded ι} {before : List Deed}

theorem make_last {p : InstancePool ω (Recorded ι)} {m : Made ActionError (Recorded ι)} {w : ω}
    (h : u.making = ids ++ [id]) (hp : u.store.pool? id = some p)
    (hm : p.factory u.store.world = (m, w)) :
    u.make ids.length =
      { u with
        store := { u.store with world := w }.setPool id (p.pool.finish (m.mapError .action)).2
        making := ids
        uses := u.uses ++ Use.begun id (p.pool.finish (m.mapError .action)).1 } := by
  simp only [make, h, List.getElem?_concat_length, hp, hm, eraseIdx_last]

variable [LocalAction ω ι C]

theorem apply_last {ctx : C} {control : Control C} {a : Applied ω C}
    (h : u.uses = us ++ [⟨id, i, before, .lent⟩])
    (ha : LocalAction.apply i ctx control u.store.world = (a, j)) :
    u.apply us.length ctx control =
      { u with
        store := { u.store with world := a.world }, uses := us ++ [⟨id, j, before, .applied⟩] } := by
  simp only [apply, h, List.getElem?_concat_length, ha, List.set_append_right _ _ (Nat.le_refl _),
    Nat.sub_self, List.set_cons_zero]

theorem reset_last {r : ResetOutcome} {w : ω} (h : u.uses = us ++ [⟨id, i, before, .applied⟩])
    (hr : LocalAction.reset C i u.store.world = (r, j, w)) :
    u.reset C us.length =
      { u with
        store := { u.store with world := w }, uses := us ++ [⟨id, j, before, .reset r⟩] } := by
  simp only [reset, h, List.getElem?_concat_length, hr, List.set_append_right _ _ (Nat.le_refl _),
    Nat.sub_self, List.set_cons_zero]

omit [LocalAction ω ι C] in
theorem giveBack_last {r : ResetOutcome} (h : u.uses = us ++ [⟨id, i, before, .reset r⟩]) :
    u.giveBack us.length =
      { u with
        store := takeBack u.store id i r, uses := us
        ended := u.ended ++ [⟨id, i, before, .reset r⟩] } := by
  simp only [giveBack, h, List.getElem?_concat_length, eraseIdx_last]

end

end Usage
end Pipeworks
