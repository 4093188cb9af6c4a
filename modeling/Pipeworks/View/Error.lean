import Pipeworks.Fault
import Pipeworks.Json.Records
/-!
# Views of errors and faults

A view is what is shown of a value: a record with its texts. The texts of errors that come from outside
the engine are not shown.
-/

namespace Pipeworks

namespace JumpError

def kind : JumpError → String
  | unknownLabel .. => "UnknownLabel"
  | intoPreRegion .. => "IntoPreRegion"
  | budgetExceeded .. => "BudgetExceeded"
  | typeMismatch .. => "TypeMismatch"
  | outputTypeMismatch .. => "OutputTypeMismatch"

end JumpError

namespace EngineError

def kind : EngineError → String
  | configuration _ => "Configuration"
  | jump _ => "Jump"
  | action _ => "Action"
  | interrupted _ => "Interrupted"
  | queueFull _ => "QueueFull"
  | engineStopped _ => "EngineStopped"
  | internal _ => "Internal"
  | serialization _ => "Serialization"
  | io _ => "Io"

/-- Whether the text of the error is the engine's own. -/
def hasOwnText : EngineError → Bool
  | serialization _ | io _ => false
  | _ => true

def view (e : EngineError) : Json :=
  .record ((match e with | configuration c => [("code", Json.orNull .string c.code?)] | _ => [])
    ++ [("error", .string e.kind)]
    ++ (if e.hasOwnText then [("message", .string e.message)] else [])
    ++ match e with | jump k => [("variant", .string k.kind)] | _ => [])

/-- Everything that there is to an error, its own text or not. -/
def fullView (e : EngineError) : Json :=
  (if e.hasOwnText then e.view else e.view.merge (.record [("message", .string e.message)])).merge
    (.record ([("is_fatal", .bool e.isFatal)]
      ++ match e with
        | configuration c => [("info", Json.orNull ErrorInfo.toDetails c.info?)]
        | _ => []))

end EngineError

namespace ActionError

mutual

def view : ActionError → Json
  | mk m s =>
    .record [("message", .string m), ("display", .string (display (mk m s))), ("suppressed", .array (views s))]

def views : List ActionError → List Json
  | [] => []
  | e :: es => view e :: views es

end

end ActionError

def RecordedError.view (e : RecordedError) : Json :=
  e.toDetails.merge
    (.record [("display", .string e.display), ("suppressed", .nat e.cause.suppressed.length)])

namespace Fault

def view (f : Fault) : Json :=
  match f with
  | failed e => .record [("fault", .string "Failed"), ("display", .string f.display), ("action", e.view)]
  | jump s =>
    .record [("fault", .string "Jump"), ("display", .string f.display), ("label", .string s.label),
      ("delay_nanos", .string (toString s.delay))]
  | abort e =>
    .record ([("fault", .string "Abort"), ("err", e.view)]
      ++ if e.hasOwnText then [("display", .string f.display)] else [])

/-- The failure that a fault is recorded as, or the error that it stays. -/
def recordedView (f : Fault) : Json :=
  match f.asActionError with
  | .ok e => .record [("ok", e.view)]
  | .error e => .record [("err", e.view)]

end Fault

def JumpSignal.view (s : JumpSignal) : Json :=
  .record [("label", .string s.label), ("delay_nanos", .string (toString s.delay)),
    ("delay_millis", .string (toString s.delayMillis)), ("is_now", .bool (s == .now s.label))]

end Pipeworks
