import Pipeworks.Cell
import Pipeworks.Script.Basic
/-!
# Scripts as shared actions
-/

namespace Pipeworks.Script

/-- The kinds of actions that a script can be. -/
inductive Kind where
  | plain
  | controlled
  /-- An action whose failures have nothing but their text. -/
  | fallible

/-- A fault reduced to the text of its cause. -/
def textOnly : Outcome String → Outcome String
  | .answered (.error f) => .fault (.failed (.new f.display))
  | o => o

/-- The shared action of a script. Its calls are counted in a cell. -/
def action {ω : Type} (kind : Kind) (script : Script) (calls : Cell ω Nat) : Action ω String :=
  let run (ctx : String) (control : Control String) (w : ω) : Applied ω String :=
    let (outcome, marks, _) := script.start ⟨calls.get w, 0, control⟩ ctx 0
    ⟨outcome, marks, calls.modify (· + 1) w⟩
  let blind (ctx : String) (w : ω) : Outcome String × ω :=
    let a := run ctx (.fresh "" none ⟨0⟩ 0) w
    (a.outcome, a.world)
  match kind with
  | .plain => .unary blind
  | .controlled => .controlled run
  | .fallible => .unary fun ctx w => let (o, w) := blind ctx w; (textOnly o, w)

end Pipeworks.Script
