import Pipeworks.Control
import Pipeworks.Marker
/-!
# Handlers and markers on texts
-/

namespace Pipeworks.Script

/-- A part of the text that a handler writes. -/
inductive Part where
  | literal (text : String)
  | step
  | cause
  | phase
  | index
  | pipeline

def Part.text (e : RecordedError) : Part → String
  | literal t => t
  | step => e.step
  | cause => e.cause.display
  | phase => e.phase.name
  | index => toString e.index
  | pipeline => e.pipeline

/-- A handler that writes its parts behind the context, or in place of it. -/
def handler (replaces : Bool) (parts : List Part) : ErrorHandler String := fun ctx e =>
  (if replaces then "" else ctx) ++ String.join (parts.map (·.text e))

/-- Texts of fewer than four characters. -/
def short : Marker String := ⟨"short", fun s => decide (s.length < 4)⟩

def nonempty : Marker String := ⟨"nonempty", fun s => !s.isEmpty⟩

def hasX : Marker String := ⟨"has_x", fun s => s.contains 'x'⟩

def marker? (name : String) : Option (Marker String) :=
  [short, nonempty, hasX].find? (·.typeName == name)

end Pipeworks.Script
