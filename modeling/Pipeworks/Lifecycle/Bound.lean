import Pipeworks.Lifecycle.Basic
import Pipeworks.Pool.Store
/-!
# Bound actions

An action bound to its step runs in the store. A shared action is itself; a per-run action makes an
instance for every application; a pooled action borrows one, applies it and resets it before it goes
back. The reset runs whatever the application did, and only an instance that was reset goes back.
-/

namespace Pipeworks

inductive BoundAction (ω ι C : Type) where
  | shared (action : Action ω C)
  | perRun (factory : LocalFactory ω ι)
  | pooled (pool : PoolId) (style : InvokeStyle)

namespace BoundAction
variable {ω ι C : Type}

def style : BoundAction ω ι C → InvokeStyle
  | shared a => a.style
  | perRun _ => .controlled
  | pooled _ s => s

/-- Adds the failure of the reset after an application to its answer. -/
def attachResetFailure (e : ActionError) : Answer C → Answer C
  | .ok _ => .error (.failed e)
  | .error (.jump _) => .error (.failed e)
  | .error (.failed f) => .error (.failed (f.suppress e))
  | .error (.abort f) => .error (.abort f)

/-- The outcome of an application and of the reset after it. A panic of the application hides a
failure of the reset, and a panic of the reset hides everything. -/
def afterReset (o : Outcome C) : ResetOutcome → Outcome C
  | .done => o
  | .failed e =>
    match o with
    | .answered a => .answered (attachResetFailure e a)
    | o => o
  | .panicked t => .panicked t

/-- Resets an instance that was applied, and gives it back or drops it. -/
def giveBack [LocalAction ω ι C] (pool : PoolId) (i : ι) (s : Store ω ι) : ResetOutcome × Store ω ι :=
  let (r, i, w) := LocalAction.reset C i s.world
  let s := { s with world := w }
  match r with
  | .done => (r, s.release pool i)
  | _ => (r, s.forget pool)

/-- Applies a borrowed instance and gives it back. One that is blocked stays out. -/
def useBorrowed [LocalAction ω ι C] (pool : PoolId) (i : ι) (ctx : C) (control : Control C)
    (s : Store ω ι) : Applied (Store ω ι) C :=
  let (a, i) := LocalAction.apply i ctx control s.world
  let s := { s with world := a.world }
  match a.outcome with
  | .blocked => ⟨.blocked, a.marks, s⟩
  | o =>
    let (r, s) := giveBack (C := C) pool i s
    ⟨afterReset o r, a.marks, s⟩

/-- Applies a bound action. -/
def apply [LocalAction ω ι C] (b : BoundAction ω ι C) (ctx : C) (control : Control C)
    (s : Store ω ι) : Applied (Store ω ι) C :=
  match b with
  | shared action =>
    let a := action.apply ctx control s.world
    ⟨a.outcome, a.marks, { s with world := a.world }⟩
  | perRun factory =>
    match s.make factory with
    | (.refused e, s) => ⟨.fault (.failed e), .none, s⟩
    | (.panicked t, s) => ⟨.panicked t, .none, s⟩
    | (.made i, s) =>
      let (a, _) := LocalAction.apply i ctx control s.world
      ⟨a.outcome, a.marks, { s with world := a.world }⟩
  | pooled pool _ =>
    match s.borrow pool with
    | (.refused e, s) => ⟨.fault (.ofEngineError e), .none, s⟩
    | (.panicked t, s) => ⟨.panicked t, .none, s⟩
    | (.exhausted, s) => ⟨.blocked, .none, s⟩
    | (.item i, s) => useBorrowed pool i ctx control s

/-! ### The store behind a use -/

section
variable [LocalAction ω ι C] {pool : PoolId} {i j : ι} {ctx : C} {control : Control C}
  {s : Store ω ι} {a : Applied ω C}

theorem useBorrowed_of_blocked (h : LocalAction.apply i ctx control s.world = (a, j))
    (ho : a.outcome = .blocked) :
    useBorrowed pool i ctx control s = ⟨.blocked, a.marks, { s with world := a.world }⟩ := by
  simp only [useBorrowed, h, ho]

theorem world_useBorrowed (h : LocalAction.apply i ctx control s.world = (a, j))
    (ho : a.outcome ≠ .blocked) :
    (useBorrowed pool i ctx control s).world =
      (giveBack (C := C) pool j { s with world := a.world }).2 := by
  cases hout : a.outcome with
  | answered x => simp only [useBorrowed, h, hout]
  | panicked t => simp only [useBorrowed, h, hout]
  | blocked => exact absurd hout ho

theorem caches_giveBack (pool : PoolId) (i : ι) (s : Store ω ι) :
    (giveBack (C := C) pool i s).2.caches = s.caches := by
  have hrelease (t : Store ω ι) (j : ι) : (t.release pool j).caches = t.caches := by
    unfold Store.release
    split <;> rfl
  have hforget (t : Store ω ι) : (t.forget pool).caches = t.caches := by
    unfold Store.forget
    split <;> rfl
  unfold giveBack
  simp only
  split
  · exact hrelease ..
  · exact hforget ..

/-- A use does not reach the caches. -/
theorem caches_apply (b : BoundAction ω ι C) (ctx : C) (control : Control C) (s : Store ω ι) :
    (b.apply ctx control s).world.caches = s.caches := by
  cases b with
  | shared action => rfl
  | perRun factory =>
    simp only [apply, Store.make]
    cases (factory s.world).1 <;> rfl
  | pooled pool style =>
    have hborrow : (s.borrow pool).2.caches = s.caches := by
      unfold Store.borrow
      split <;> rfl
    simp only [apply]
    rcases hb : s.borrow pool with ⟨b, t⟩
    rw [hb] at hborrow
    cases b with
    | item i =>
      simp only [useBorrowed]
      split
      · exact hborrow
      · exact (caches_giveBack ..).trans hborrow
    | refused e | panicked t | exhausted => exact hborrow

end

end BoundAction
end Pipeworks
