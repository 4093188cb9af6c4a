import Pipeworks.Duration
import Pipeworks.Error.Basic
/-!
# Results of runs
-/

namespace Pipeworks

/-- One step that was begun: its place, its name, how long it took and whether it succeeded. -/
structure Timing where
  phase : Phase
  index : Nat
  name : String
  elapsed : Nanos
  success : Bool
  deriving DecidableEq

structure RunResult (C : Type) where
  context : C
  shortCircuited : Bool
  errors : List RecordedError
  timings : List Timing
  elapsed : Nanos

namespace RunResult
variable {C D : Type}

def isSuccess (r : RunResult C) : Bool := !r.shortCircuited && r.errors.isEmpty

def hasErrors (r : RunResult C) : Bool := !r.errors.isEmpty

/-- The time the run took, as it is reported. -/
def elapsedNanos (r : RunResult C) : Nat := saturate r.elapsed

/-- The same result about another context. -/
def map (f : C → D) (r : RunResult C) : RunResult D :=
  { context := f r.context, shortCircuited := r.shortCircuited, errors := r.errors
    timings := r.timings, elapsed := r.elapsed }

end RunResult
end Pipeworks
