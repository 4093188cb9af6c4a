import Pipeworks.Script.Instance
import Pipeworks.Testing.Action
import Pipeworks.Testing.Recording
/-!
# The bench

A bench is a world for trying pipelines out. Its clock moves only while somebody waits, and it keeps
what actions, instances, sleepers and sinks record, each in a slot.
-/

namespace Pipeworks

/-- What a record of a bench is kept under: a name, or a number that nothing else has. -/
inductive Bench.Slot where
  | named (name : String)
  | numbered (n : Nat)
  deriving DecidableEq

structure Bench where
  clock : Nanos
  processors : Nat
  /-- The number of identities given to runs. -/
  runs : Nat
  /-- The number of slots without a name. -/
  slots : Nat
  /-- The counted actions that have a name, as they were first described. -/
  counted : Keyed Testing.Counted
  calls : List (Bench.Slot × Nat)
  stats : List (Bench.Slot × InstanceStats)
  probes : List (Bench.Slot × ProbeStats)
  delays : List (Bench.Slot × Trail Nanos)
  events : List (Bench.Slot × Trail (RunHeader × Event))
  log : Trail LogEntry
  reports : Trail Report
  collected : Trail String

namespace Bench

def new (processors : Nat) : Bench :=
  { clock := 0, processors := processors, runs := 0, slots := 0, counted := ∅, calls := []
    stats := [], probes := [], delays := [], events := [], log := ∅, reports := ∅, collected := ∅ }

instance : Inhabited Bench := ⟨new 1⟩

instance : Host Bench where
  now b := b.clock
  newRun b := (.numbered b.runs, { b with runs := b.runs + 1 })
  wait d b := { b with clock := b.clock + d }
  cpus b := b.processors

/-- A slot that was not given before. -/
def newSlot (b : Bench) : Slot × Bench := (.numbered b.slots, { b with slots := b.slots + 1 })

/-- The counted action with a name. The first description of it stays. -/
def share (name : String) (a : Testing.Counted) (b : Bench) : Testing.Counted × Bench :=
  match b.counted.get? name with
  | some a => (a, b)
  | none => (a, { b with counted := b.counted.insert name a })

/-- The cell of a slot in one of the tables. -/
def entry {α : Type} [Inhabited α] (table : Bench → List (Slot × α))
    (put : List (Slot × α) → Bench → Bench) (law : ∀ t b, table (put t b) = t) (slot : Slot) :
    Cell Bench α where
  get b := ((table b).lookup slot).getD default
  set a b := put ((slot, a) :: (table b).filter (·.1 != slot)) b
  get_set a b := by simp [law]

/-- The count of calls of an action. -/
def callsOf : Slot → Cell Bench Nat := entry (·.calls) (fun t b => { b with calls := t }) fun _ _ => rfl

def statsOf : Slot → Cell Bench InstanceStats :=
  entry (·.stats) (fun t b => { b with stats := t }) fun _ _ => rfl

def probeOf : Slot → Cell Bench ProbeStats :=
  entry (·.probes) (fun t b => { b with probes := t }) fun _ _ => rfl

def delaysOf : Slot → Cell Bench (Trail Nanos) :=
  entry (·.delays) (fun t b => { b with delays := t }) fun _ _ => rfl

def eventsOf : Slot → Cell Bench (Trail (RunHeader × Event)) :=
  entry (·.events) (fun t b => { b with events := t }) fun _ _ => rfl

def logCell : Cell Bench (Trail LogEntry) := ⟨(·.log), fun a b => { b with log := a }, fun _ _ => rfl⟩

def reportsCell : Cell Bench (Trail Report) :=
  ⟨(·.reports), fun a b => { b with reports := a }, fun _ _ => rfl⟩

def collectedCell : Cell Bench (Trail String) :=
  ⟨(·.collected), fun a b => { b with collected := a }, fun _ _ => rfl⟩

end Bench
end Pipeworks
