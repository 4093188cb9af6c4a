import Pipeworks.Action.Instance
import Pipeworks.Cell
/-!
# Probes

A probe is an instance that notices when it is applied twice without a reset in between. All probes of
one kind report to one record.
-/

namespace Pipeworks

structure ProbeStats where
  created : Nat
  resets : Nat
  applies : Nat
  /-- Applications of an instance that was not clean. -/
  violations : Nat
  active : Nat
  peakActive : Nat

instance : Inhabited ProbeStats := ⟨⟨0, 0, 0, 0, 0, 0⟩⟩

structure Probe (ω : Type) where
  id : Nat
  dirty : Bool
  stats : Cell ω ProbeStats

namespace Probe
variable {ω : Type}

def typeName : String := "phaseflow::testing::mocks::ResettableProbe"

/-- A new probe, with the next number. -/
def new (stats : Cell ω ProbeStats) (w : ω) : Probe ω × ω :=
  let n := (stats.get w).created + 1
  (⟨n, false, stats⟩, stats.modify ({ · with created := n }) w)

/-- The record while a probe is being applied. -/
def enter (dirty : Bool) (s : ProbeStats) : ProbeStats :=
  { s with
    applies := s.applies + 1
    violations := s.violations + if dirty then 1 else 0
    active := s.active + 1
    peakActive := max s.peakActive (s.active + 1) }

def leave (s : ProbeStats) : ProbeStats := { s with active := s.active - 1 }

/-- Appends the number of the probe to a text. -/
def apply (p : Probe ω) (ctx : String) (w : ω) : Outcome String × Probe ω × ω :=
  (.next s!"{ctx}|{p.id}", { p with dirty := true }, p.stats.modify (leave ∘ enter p.dirty) w)

def reset (p : Probe ω) (w : ω) : Probe ω × ω :=
  ({ p with dirty := false }, p.stats.modify (fun s => { s with resets := s.resets + 1 }) w)

end Probe
end Pipeworks
