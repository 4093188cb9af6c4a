import Pipeworks.Error.Info
import Pipeworks.Error.Action
/-!
# Configuration errors

What can be wrong with a pipeline or its settings before it runs. Each cause of the library has a
code of its own; `plain` and `described` are for the library's users.
-/

namespace Pipeworks

inductive ConfigError where
  | plain (message : String)
  | described (message : String) (info : ErrorInfo)
  | duplicateLabel (pipeline label : String)
  | sealed (pipeline operation : String)
  | notResettable (step typeName : String)
  | keyCollision (key existing requested : String)
  | unknownAction (key : String)
  | construction (step : String) (cause : ActionError)
  | invalidValue (field reason : String)
  deriving DecidableEq

namespace ConfigError

def message : ConfigError → String
  | plain m => m
  | described m _ => m
  | duplicateLabel p l => s!"Duplicate label '{l}' in pipeline '{p}'"
  | sealed p o => s!"Pipeline '{p}' is sealed; '{o}' is no longer allowed"
  | notResettable s t => s!"Pooled action '{s}' ({t}) does not support reset"
  | keyCollision k e r => s!"Action pool key '{k}' is bound to {e}, cannot rebind to {r}"
  | unknownAction k => s!"No action registered under '{k}'"
  | construction s c => s!"Failed to construct action '{s}': {c.display}"
  | invalidValue f r => s!"Invalid value for '{f}': {r}"

def info? : ConfigError → Option ErrorInfo
  | plain _ => none
  | described _ i => some i
  | duplicateLabel p l =>
    some ((((ErrorInfo.new "CONFIG-001-DUPLICATE_LABEL" s!"Label '{l}' is already in use").withFixHint
      "Labels must be unique across pre, main and post phases.").withContext "pipeline" p).withContext
      "label" l)
  | sealed p o =>
    some ((((ErrorInfo.new "CONFIG-002-SEALED" "Mutation after seal").withFixHint
      "Configure the pipeline completely before the first run.").withContext "pipeline" p).withContext
      "operation" o)
  | notResettable s t =>
    some ((((ErrorInfo.new "CONFIG-003-NOT_RESETTABLE" "Pooled actions must be resettable").withFixHint
      "Implement LocalAction::reset or wrap the action with actions::resettable.").withContext
      "step" s).withContext "type" t)
  | keyCollision k e r =>
    some (((((ErrorInfo.new "CONFIG-004-KEY_COLLISION"
      "Incompatible action definitions share a pool key").withFixHint
      "Give one of the actions a distinct label or pipeline name.").withContext "key" k).withContext
      "existing" e).withContext "requested" r)
  | unknownAction k =>
    some (((ErrorInfo.new "CONFIG-005-UNKNOWN_ACTION" "Unknown action key").withFixHint
      "Register the action with the ActionRegistry at startup.").withContext "key" k)
  | construction s _ =>
    some ((ErrorInfo.new "CONFIG-006-CONSTRUCTION" "Action factory failed").withContext "step" s)
  | invalidValue f r => some ((ErrorInfo.new "CONFIG-007-INVALID_VALUE" r).withContext "field" f)

def code? (e : ConfigError) : Option String := e.info?.map (·.code)

/-! ### One thing after the other -/

section Bind

variable {α β : Type} {x : Except ConfigError α} {f : α → Except ConfigError β}

theorem bind_eq_ok {b : β} : x >>= f = .ok b ↔ ∃ a, x = .ok a ∧ f a = .ok b := by
  cases x <;> simp [bind, Except.bind]

/-- The first error is the error of the whole. -/
theorem bind_eq_error {e : ConfigError} :
    x >>= f = .error e ↔ x = .error e ∨ ∃ a, x = .ok a ∧ f a = .error e := by
  cases x <;> simp [bind, Except.bind]

end Bind

end ConfigError
end Pipeworks
