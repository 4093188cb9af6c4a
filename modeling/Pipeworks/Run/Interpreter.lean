import Pipeworks.Config.Basic
import Pipeworks.Run.Drive
/-!
# Interpreters

An interpreter runs one plan with jumps. A start label can be queued for its next run.
-/

namespace Pipeworks

structure Interpreter (ω ι C : Type) where
  plan : Plan ω ι C
  maxJumps : Nat
  sleeper : Sleeper ω
  sink : Sink ω
  queuedStart : Option String

namespace Interpreter
variable {ω ι C : Type}

def new [Host ω] (plan : Plan ω ι C) : Interpreter ω ι C :=
  ⟨plan, defaultMaxJumps, .host, .silent, none⟩

/-- Sets the jump budget, at least one. -/
def withMaxJumps (i : Interpreter ω ι C) (m : Nat) : Interpreter ω ι C :=
  { i with maxJumps := max m 1 }

def withSleeper (i : Interpreter ω ι C) (s : Sleeper ω) : Interpreter ω ι C := { i with sleeper := s }

def withSink (i : Interpreter ω ι C) (s : Sink ω) : Interpreter ω ι C := { i with sink := s }

def jumpTo (i : Interpreter ω ι C) (label : String) : Interpreter ω ι C :=
  { i with queuedStart := some label }

/-- The executor of its runs, which may be told what the last context of a run must be. -/
def executor (i : Interpreter ω ι C) (expectedOutput : Option (Marker C)) : Executor ω ι C :=
  { Executor.addressed i.plan i.sink i.maxJumps i.sleeper with expectedOutput := expectedOutput }

variable [Host ω] [LocalAction ω ι C]

/-- Runs from a label or from the first step; the queue is left alone. -/
def executeFrom (i : Interpreter ω ι C) (start : Option String) (expectedOutput : Option (Marker C))
    (input : C) (s : Store ω ι) : Ending ω ι C (RunResult C) × Store ω ι :=
  (i.executor expectedOutput).execute start input s

/-- Runs from the queued label, which is used up, or from the first step. -/
def execute (i : Interpreter ω ι C) (input : C) (s : Store ω ι) :
    Ending ω ι C (RunResult C) × Interpreter ω ι C × Store ω ι :=
  let (e, s) := i.executeFrom i.queuedStart none input s
  (e, { i with queuedStart := none }, s)

end Interpreter
end Pipeworks
