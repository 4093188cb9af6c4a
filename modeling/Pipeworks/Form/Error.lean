import Pipeworks.Fault
import Pipeworks.Form.Basic
import Pipeworks.RunResult
/-!
# Forms of errors, faults and results
-/

namespace Pipeworks

/-- Reads a failure whose form is nested less than `n` deep. -/
def ActionError.read : Nat → Json → Option ActionError
  | 0, _ => none
  | n + 1, v =>
    match v with
    | .text s => s.map .new
    | v =>
      match v.member? "chain" with
      | some chain => chain.strings?.map .ofChain
      | none => do
        pure ((← v.many "suppressed" (read n)).foldl suppress (.new (← v.need "message" Json.string?)))

/-- A failure: its message, a message with failures attached, or a chain of causes. -/
def ActionError.ofForm? (v : Json) : Option ActionError := read (v.depth + 1) v

def ConfigError.ofForm? (v : Json) : Option ConfigError := do
  match ← v.need "which" Json.string?, ← v.many "args" Json.string? with
  | "new", [t] => pure (plain t)
  | "with_info", [t, code, summary] => pure (described t (.new code summary))
  | "duplicate_label", [p, l] => pure (duplicateLabel p l)
  | "sealed", [p, o] => pure (sealed p o)
  | "not_resettable", [s, t] => pure (notResettable s t)
  | "key_collision", [k, e, r] => pure (keyCollision k e r)
  | "unknown_action", [k] => pure (unknownAction k)
  | "construction", [s] => pure (construction s (← v.need "cause" ActionError.ofForm?))
  | "invalid_value", [f, r] => pure (invalidValue f r)
  | _, _ => none

def JumpError.ofForm? (v : Json) : Option JumpError := do
  let text name := v.need name Json.string?
  match ← text "variant" with
  | "UnknownLabel" => pure (unknownLabel (← text "pipeline") (← text "label"))
  | "IntoPreRegion" =>
    pure (intoPreRegion (← text "label") (← v.need "target" Json.count?) (← v.need "pre_boundary" Json.count?))
  | "BudgetExceeded" => pure (budgetExceeded (← text "pipeline") (← v.need "max" Json.count?))
  | "TypeMismatch" => pure (typeMismatch (← text "label") (← text "expected"))
  | "OutputTypeMismatch" => pure (outputTypeMismatch (← text "pipeline") (← text "expected"))
  | _ => none

def EngineError.ofForm? (v : Json) : Option EngineError := do
  let text := v.need "text" Json.string?
  match ← v.need "kind" Json.string? with
  | "Configuration" => (ConfigError.ofForm? v).map configuration
  | "Jump" => (JumpError.ofForm? v).map jump
  | "Action" => (v.need "action" ActionError.ofForm?).map action
  | "Interrupted" => text.map interrupted
  | "QueueFull" => text.map queueFull
  | "EngineStopped" => text.map engineStopped
  | "Internal" => text.map internal
  | "Serialization" => text.map serialization
  | "Io" => text.map io
  | _ => none

def JumpSignal.ofForm? (v : Json) : Option JumpSignal := do
  pure ⟨← v.need "label" Json.string?, ← v.maybeD "delay" Json.duration? 0⟩

/-- What a fault may arise from. -/
inductive FaultSource where
  | text
  | label
  | signal
  | failure
  | chain
  | jumpError
  | engineError

def FaultSource.ofName? : String → Option FaultSource
  | "failed" => some text
  | "jump" => some label
  | "jump_after" | "signal" => some signal
  | "action_error" => some failure
  | "chain" => some chain
  | "jump_error" => some jumpError
  | "engine_error" => some engineError
  | _ => none

/-- A fault as it arises from an argument. -/
def Fault.ofForm? (source : FaultSource) (v : Json) : Option Fault :=
  match source with
  | .text => v.string?.map fun t => failed (.new t)
  | .label => v.string?.map fun l => jump (.now l)
  | .signal => (JumpSignal.ofForm? v).map jump
  | .failure => (ActionError.ofForm? v).map failed
  | .chain => ((v.member? "chain").getD v).strings?.map fun c => failed (.ofChain c)
  | .jumpError => (JumpError.ofForm? v).map ofJumpError
  | .engineError => (EngineError.ofForm? v).map ofEngineError

/-- The details of an error, its context in the order it was given. -/
def ErrorInfo.ofForm? (v : Json) : Option ErrorInfo := do
  let i := ErrorInfo.new (← v.need "code" Json.string?) (← v.need "summary" Json.string?)
  let i := (← v.maybe "fix_hint" Json.string?).elim i i.withFixHint
  (← v.many "context" Json.strings?).foldlM (fun i e =>
    match e with
    | [k, v] => some (i.withContext k v)
    | _ => none) i

def RecordedError.ofForm? (v : Json) : Option RecordedError := do
  pure ⟨← v.need "pipeline" Json.string?, ← v.need "phase" Phase.ofJson?, ← v.need "index" Json.count?,
    ← v.need "step" Json.string?, ← v.need "cause" ActionError.ofForm?⟩

def Timing.ofForm? (v : Json) : Option Timing := do
  match ← v.items? with
  | [p, i, n, e, s] => pure ⟨← Phase.ofJson? p, ← i.count?, ← n.string?, ← e.count?, ← s.bool?⟩
  | _ => none

def RunResult.ofForm? (v : Json) : Option (RunResult String) := do
  pure ⟨← v.need "context" Json.string?, ← v.need "short_circuited" Json.bool?,
    ← v.many "errors" RecordedError.ofForm?, ← v.many "timings" Timing.ofForm?,
    ← v.maybeD "elapsed" Json.duration? 0⟩

end Pipeworks
