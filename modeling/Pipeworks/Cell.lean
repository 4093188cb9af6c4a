import Pipeworks.Trail
/-!
# Cells

A cell is a place in a world that holds a value.
-/

namespace Pipeworks

structure Cell (ω α : Type) where
  get : ω → α
  set : α → ω → ω
  get_set : ∀ a w, get (set a w) = a

namespace Cell
variable {ω α : Type}

def modify (c : Cell ω α) (f : α → α) (w : ω) : ω := c.set (f (c.get w)) w

@[simp] theorem get_modify (c : Cell ω α) (f : α → α) (w : ω) : c.get (c.modify f w) = f (c.get w) :=
  c.get_set ..

end Cell

/-- Adds to the trail in a cell. -/
def Cell.append {ω α : Type} (c : Cell ω (Trail α)) (a : α) : ω → ω := c.modify (·.push a)

end Pipeworks
