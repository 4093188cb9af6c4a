import Pipeworks.Action.Instance
import Pipeworks.Script.Basic
/-!
# Supplies of numbered texts
-/

namespace Pipeworks

/-- A factory of the texts `i0`, `i1`, …, some of whose calls are refused. -/
structure Supply where
  /-- What becomes of each call: a refusal or the next text. -/
  entries : List (Option EngineError)
  calls : Nat
  made : Nat

def Supply.make (s : Supply) : Made EngineError String × Supply :=
  let next := { s with calls := s.calls + 1 }
  match (Script.turn? s.entries s.calls).join with
  | some e => (.refused e, next)
  | none => (.made s!"i{s.made}", { next with made := s.made + 1 })

end Pipeworks
