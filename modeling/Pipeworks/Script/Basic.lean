import Pipeworks.Action.Basic
/-!
# Scripts

A script is an action on texts written as data. Its instructions work on a text of their own, which
starts as the context and becomes the next one; the first instruction that does not go on ends the
script. What a script did to the control before that stays.
-/

namespace Pipeworks

inductive Instruction where
  | append (text : String)
  | set (text : String)
  | fail (e : ActionError)
  /-- Fails with a chain of causes, the outermost first. -/
  | bail (chain : List String)
  | jump (s : JumpSignal)
  | abort (e : EngineError)
  /-- Ends as the error asks for. -/
  | raise (e : EngineError)
  | panic (text : String)
  | ifShorter (length : Nat) (yes no : List Instruction)
  /-- Runs one of some scripts, a different one on every call as long as there are more. -/
  | byCall (scripts : List (List Instruction))
  | shortCircuit
  | recordError (e : ActionError)
  | showErrors
  | showStep
  | showPipeline
  | showShort
  | showTimings
  /-- Counts a use of the instance, and shows the count. -/
  | use

abbrev Script := List Instruction

namespace Script

/-- The entry for the call number `k`; the last entry serves all later calls. -/
def turn? {α : Type} (entries : List α) (k : Nat) : Option α := entries[k]? <|> entries.getLast?

/-- What a script runs in. -/
structure Setting where
  /-- The number of calls before this one. -/
  call : Nat
  /-- The number of the instance. -/
  instanceId : Nat
  /-- The control when the script was begun. -/
  control : Control String

structure State where
  text : String
  marks : Control.Marks
  /-- How often the instance was used. -/
  uses : Nat

/-- How a script ends before its last instruction. -/
inductive Stop where
  | fault (f : Fault)
  | panic (text : String)

namespace Setting

/-- The control as the script sees it. -/
def view (t : Setting) (s : State) : Control String := t.control.absorb s.marks

def timingText (t : Timing) : String := t.name ++ if t.success then "+" else "-"

/-- The effect of an instruction that has no scripts inside. -/
def effect (t : Setting) (s : State) : Instruction → State × Option Stop
  | .append x => ({ s with text := s.text ++ x }, none)
  | .set x => ({ s with text := x }, none)
  | .fail e => (s, some (.fault (.failed e)))
  | .bail chain => (s, some (.fault (.failed (.ofChain chain))))
  | .jump signal => (s, some (.fault (.jump signal)))
  | .abort e => (s, some (.fault (.abort e)))
  | .raise e => (s, some (.fault (.ofEngineError e)))
  | .panic x => (s, some (.panic x))
  | .shortCircuit => ({ s with marks := { s.marks with shortCircuit := true } }, none)
  | .recordError e =>
    ({ s with text := ((t.view s).recordError s.text e).1
              marks := { s.marks with recorded := s.marks.recorded ++ [e] } }, none)
  | .showErrors => ({ s with text := s.text ++ s!"<e{(t.view s).errors.size}>" }, none)
  | .showStep => ({ s with text := s.text ++ s!"<{(t.view s).step}>" }, none)
  | .showPipeline => ({ s with text := s.text ++ s!"<{(t.view s).pipeline}>" }, none)
  | .showShort => ({ s with text := s.text ++ if (t.view s).shortCircuited then "<S>" else "<->" }, none)
  | .showTimings =>
    ({ s with text := s.text ++ "<" ++ ",".intercalate ((t.view s).timings.toList.map timingText) ++ ">" }, none)
  | .use =>
    ({ s with uses := s.uses + 1, text := s.text ++ s!"#{t.instanceId}.{s.uses + 1}" }, none)
  | .ifShorter .. => (s, none)
  | .byCall _ => (s, none)

mutual

def step (t : Setting) (s : State) : Instruction → State × Option Stop
  | .ifShorter n yes no => if s.text.length < n then run t s yes else run t s no
  | .byCall scripts => runTurn t s t.call scripts
  | i => t.effect s i

def run (t : Setting) (s : State) : List Instruction → State × Option Stop
  | [] => (s, none)
  | i :: is =>
    match step t s i with
    | (s, none) => run t s is
    | (s, some stop) => (s, some stop)

/-- Runs the script for the call number `k`, or the last one. -/
def runTurn (t : Setting) (s : State) (k : Nat) : List (List Instruction) → State × Option Stop
  | [] => (s, none)
  | [script] => run t s script
  | script :: rest =>
    match k with
    | 0 => run t s script
    | k + 1 => runTurn t s k rest

end

end Setting

/-- What becomes of a script with its end. -/
def outcome (s : State) : Option Stop → Outcome String
  | none => .next s.text
  | some (.fault f) => .fault f
  | some (.panic x) => .panicked x

/-- Runs a script on a context. The count of uses is the one of its instance. -/
def start (script : Script) (t : Setting) (ctx : String) (uses : Nat) :
    Outcome String × Control.Marks × Nat :=
  let (s, stop) := t.run ⟨ctx, .none, uses⟩ script
  (outcome s stop, s.marks, s.uses)

end Script
end Pipeworks
