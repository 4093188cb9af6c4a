/-!
# Phases and step names

A pipeline runs three phases in order. The name of a step is read off its place: the tag of its
phase, its index there and its label, if it has one.
-/

namespace Pipeworks

inductive Phase where
  | pre
  | main
  | post
  deriving DecidableEq

namespace Phase

instance : Inhabited Phase := ⟨main⟩

/-- Every phase, in the order they run. -/
def all : List Phase := [pre, main, post]

/-- The place of a phase in the running order. -/
def rank : Phase → Nat
  | pre => 0
  | main => 1
  | post => 2

instance : LE Phase := ⟨fun p q => p.rank ≤ q.rank⟩

instance (p q : Phase) : Decidable (p ≤ q) := inferInstanceAs (Decidable (p.rank ≤ q.rank))

def name : Phase → String
  | pre => "pre"
  | main => "main"
  | post => "post"

/-- The first part of a step's name. No tag is the beginning of another. -/
def tag : Phase → String
  | pre => "pre"
  | main => "s"
  | post => "post"

def ofName? (s : String) : Option Phase := all.find? (·.name == s)

/-- The phases up to and including this one. -/
def upTo (p : Phase) : List Phase := all.filter (· ≤ p)

/-- The name of the step at `index` of a phase. -/
def stepName (p : Phase) (index : Nat) (label : Option String) : String :=
  p.tag ++ toString index ++ (label.elim "" (":" ++ ·))

end Phase

/-- One value for each phase. -/
structure ByPhase (α : Type) where
  pre : α
  main : α
  post : α

namespace ByPhase
variable {α : Type}

def get (b : ByPhase α) : Phase → α
  | .pre => b.pre
  | .main => b.main
  | .post => b.post

def modify (b : ByPhase α) (f : α → α) : Phase → ByPhase α
  | .pre => { b with pre := f b.pre }
  | .main => { b with main := f b.main }
  | .post => { b with post := f b.post }

/-- The same value in every phase. -/
def const (a : α) : ByPhase α := ⟨a, a, a⟩

/-- Appends to the list of one phase. -/
def push (b : ByPhase (List α)) (p : Phase) (a : α) : ByPhase (List α) := b.modify (· ++ [a]) p

/-- The lists one after another, in running order. -/
def flat (b : ByPhase (List α)) : List α := b.pre ++ b.main ++ b.post

@[simp] theorem get_modify (b : ByPhase α) (f : α → α) (p : Phase) :
    (b.modify f p).get p = f (b.get p) := by cases p <;> rfl

theorem get_modify_ne (b : ByPhase α) (f : α → α) {p q : Phase} (h : q ≠ p) :
    (b.modify f p).get q = b.get q := by
  cases p <;> cases q <;> simp_all [modify, get]

end ByPhase
end Pipeworks
