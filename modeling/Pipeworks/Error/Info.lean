import Pipeworks.Keyed
/-!
# Structured details of an error
-/

namespace Pipeworks

/-- A code for programs, a summary for people, perhaps a hint at a fix, and the values involved. -/
structure ErrorInfo where
  code : String
  summary : String
  fixHint : Option String
  context : Keyed String
  deriving DecidableEq

namespace ErrorInfo

instance : Inhabited ErrorInfo := ⟨"", "", none, ∅⟩

def new (code summary : String) : ErrorInfo := ⟨code, summary, none, ∅⟩

def withFixHint (i : ErrorInfo) (hint : String) : ErrorInfo := { i with fixHint := some hint }

/-- Adds a value; one already there under the same key is replaced. -/
def withContext (i : ErrorInfo) (key value : String) : ErrorInfo :=
  { i with context := i.context.insert key value }

end ErrorInfo
end Pipeworks
