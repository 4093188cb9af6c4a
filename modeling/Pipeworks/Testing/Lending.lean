import Pipeworks.Keyed
import Pipeworks.Pool.Basic
import Pipeworks.Testing.Supply
/-!
# Pools of texts and what is lent from them

Pools go by names, and so does what is borrowed from them. A name that is given again stands for the
new pool; what was borrowed from the old one goes back to the old one.
-/

namespace Pipeworks

/-- A text that was borrowed from a pool, given by its number. -/
structure Loan where
  pool : Nat
  item : String

structure Lending where
  pools : List (Pool String × Supply)
  /-- The number of the pool that a name stands for. -/
  names : Keyed Nat
  loans : List (String × Loan)

namespace Lending

def empty : Lending := ⟨[], ∅, []⟩

/-- A new pool under a name. -/
def add (l : Lending) (name : String) (p : Pool String) (s : Supply) : Lending :=
  { l with pools := l.pools ++ [(p, s)], names := l.names.insert name l.pools.length }

def pool? (l : Lending) (name : String) : Option (Pool String) :=
  ((l.names.get? name).bind (l.pools[·]?)).map (·.1)

def loan? (l : Lending) (guard : String) : Option Loan := l.loans.lookup guard

def modifyPool (l : Lending) (n : Nat) (f : Pool String → Pool String) : Lending :=
  { l with pools := l.pools.modify n fun p => (f p.1, p.2) }

/-- Changes the pool that a name stands for. -/
def change (l : Lending) (name : String) (f : Pool String → Pool String) : Lending :=
  (l.names.get? name).elim l (l.modifyPool · f)

/-- Borrows from the pool that a name stands for. -/
def borrow? (l : Lending) (name : String) : Option (Borrowed String × Lending) := do
  let n ← l.names.get? name
  let (p, s) ← l.pools[n]?
  let (b, p, s) := p.borrow Supply.make s
  pure (b, { l with pools := l.pools.set n (p, s) })

/-- Ends a loan: the text goes back, or is given up. -/
def finish (l : Lending) (guard : String) (discard : Bool) : Lending :=
  match l.loan? guard with
  | none => l
  | some loan =>
    { l with loans := l.loans.filter (·.1 != guard) }.modifyPool loan.pool fun p =>
      if discard then p.forget else p.release loan.item

/-- Begins a loan under the name of a guard. What the guard kept before goes back. -/
def keep (l : Lending) (guard : String) (loan : Loan) : Lending :=
  let l := l.finish guard false
  { l with loans := (guard, loan) :: l.loans }

/-- Borrows from the pool that a name stands for, and keeps the text under a guard. -/
def lend? (l : Lending) (name guard : String) : Option (Borrowed String × Lending) := do
  let n ← l.names.get? name
  let (b, l) ← l.borrow? name
  pure (b, match b with | .item a => l.keep guard ⟨n, a⟩ | _ => l)

/-- Adds to a text that is lent. -/
def append (l : Lending) (guard text : String) : Lending :=
  { l with loans := l.loans.map fun (g, loan) =>
      (g, if g = guard then { loan with item := loan.item ++ text } else loan) }

end Lending
end Pipeworks
