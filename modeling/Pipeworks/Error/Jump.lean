/-!
# Jump errors

A transfer of control that cannot be made. Such an error always ends the run.
-/

namespace Pipeworks

inductive JumpError where
  | unknownLabel (pipeline label : String)
  | intoPreRegion (label : String) (target preBoundary : Nat)
  | budgetExceeded (pipeline : String) (max : Nat)
  | typeMismatch (label expected : String)
  | outputTypeMismatch (pipeline expected : String)
  deriving DecidableEq

def JumpError.message : JumpError → String
  | unknownLabel p l => s!"Unknown jump label '{l}' in pipeline '{p}'"
  | intoPreRegion l t b =>
    s!"Jump into 'pre' is not allowed: label '{l}' resolves to index {t} (pre ends at {b})"
  | budgetExceeded p m => s!"Too many jumps in pipeline '{p}' (max {m})"
  | typeMismatch l e => s!"Jump to '{l}' expects input of type {e}"
  | outputTypeMismatch p e => s!"Pipeline '{p}' produced a value that is not of type {e}"

end Pipeworks
