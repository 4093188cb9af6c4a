import Pipeworks.RunResult
import Pipeworks.Text.Quoted
/-!
# Expectations of results
-/

namespace Pipeworks

inductive Expectation where
  | succeeded
  | shortCircuited
  /-- One error, at a place. -/
  | errorAt (phase : Phase) (index : Nat)
  | errorSteps (names : List String)
  | timings (names : List String)

namespace Expectation
variable {C : Type}

def holds (r : RunResult C) : Expectation → Bool
  | succeeded => r.isSuccess
  | shortCircuited => r.shortCircuited
  | errorAt phase index => r.errors.map (fun e => (e.phase, e.index)) == [(phase, index)]
  | errorSteps names => r.errors.map (·.step) == names
  | timings names => r.timings.map (·.name) == names

def errorTexts (r : RunResult C) : String := Text.quotedList (r.errors.map (·.display))

/-- What is said of a result that does not meet the expectation. -/
def complaint (r : RunResult C) : Expectation → String
  | succeeded =>
    s!"Expected success, got short_circuited={r.shortCircuited} errors={errorTexts r}"
  | shortCircuited => "Expected the run to be short-circuited, but it ran to completion"
  | errorAt phase index =>
    s!"Expected exactly one error at {phase.name}#{index}, got {errorTexts r}"
  | errorSteps _ => "Unexpected error steps"
  | timings _ => "Unexpected execution order"

end Expectation
end Pipeworks
