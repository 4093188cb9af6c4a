import Pipeworks.Duration
import Pipeworks.RunId
/-!
# The host of the engine

What the engine asks of the world around it: a clock, fresh identities for runs, a way to let time
pass, and the number of processors. The world itself is whatever the actions work on.
-/

namespace Pipeworks

class Host (ω : Type) where
  now : ω → Nanos
  newRun : ω → RunId × ω
  wait : Nanos → ω → ω
  cpus : ω → Nat

/-- The size of a pool for which none is given: eight per processor, from 1 to 256. -/
def defaultPoolMax {ω : Type} [Host ω] (w : ω) : Nat := max 1 (min (Host.cpus w * 8) 256)

theorem defaultPoolMax_pos {ω : Type} [Host ω] (w : ω) : 1 ≤ defaultPoolMax w := Nat.le_max_left ..

theorem defaultPoolMax_le {ω : Type} [Host ω] (w : ω) : defaultPoolMax w ≤ maxWord :=
  Nat.max_le.2 ⟨by decide, Nat.le_trans (Nat.min_le_right ..) (by decide)⟩

end Pipeworks
