import Pipeworks.Form.Error
import Pipeworks.Pipeline.Setting
import Pipeworks.Script.Handler
import Pipeworks.Script.Value
/-!
# Forms of scripts, functions and settings

An instruction is a list of its name and its arguments. A text may hold the number of a build.
-/

namespace Pipeworks

/-- A text with the number of a build in it. -/
def fillBuild (build : Nat) (s : String) : String := s.replace "\x7bbuild\x7d" (toString build)

namespace Script

/-- Reads a script whose form is nested less than `n` deep. -/
def read (build : Nat) : Nat → Json → Option Script
  | 0, _ => none
  | n + 1, v => v.list? fun i => do
    let items ← i.items?
    let args := items.drop 1
    let filled := args.head?.bind fun t => t.string?.map (fillBuild build)
    match ← items.head?.bind Json.string?, args with
    | "append", [_] => filled.map .append
    | "set", [_] => filled.map .set
    | "fail", [e] => (ActionError.ofForm? e).map .fail
    | "failed", [t] => t.string?.map fun t => .fail (.new t)
    | "bail", [c] => c.strings?.map .bail
    | "jump", [l] => l.string?.map fun l => .jump (.now l)
    | "jump_after", [l, d] => pure (.jump (.after (← l.string?) (← d.duration?)))
    | "abort", [e] => (EngineError.ofForm? e).map .abort
    | "raise", [e] => (EngineError.ofForm? e).map .raise
    | "panic", [t] => t.string?.map .panic
    | "if_len_lt", [k, a, b] => pure (.ifShorter (← k.count?) (← read build n a) (← read build n b))
    | "by_call", [l] => (l.list? (read build n)).map .byCall
    | "short_circuit", [] => pure .shortCircuit
    | "record_error", [e] => (ActionError.ofForm? e).map .recordError
    | "show_errors", [] => pure .showErrors
    | "show_step", [] => pure .showStep
    | "show_pipeline", [] => pure .showPipeline
    | "show_short", [] => pure .showShort
    | "show_timings", [] => pure .showTimings
    | "use", [] => pure .use
    | _, _ => none

def ofForm? (build : Nat) (v : Json) : Option Script := read build (v.depth + 1) v

def Part.ofForm? : Json → Option Part
  | .text (some "step") => some .step
  | .text (some "cause") => some .cause
  | .text (some "phase") => some .phase
  | .text (some "index") => some .index
  | .text (some "pipeline") => some .pipeline
  | v => (v.need "lit" Json.string?).map .literal

def handlerOfForm? (v : Json) : Option (ErrorHandler String) := do
  pure (handler ((← v.need "mode" Json.string?) == "replace") (← v.many "parts" Part.ofForm?))

end Script

def DataType.ofForm? (v : Json) : Option DataType := do
  match ← v.string? with
  | "int" => pure int
  | "str" => pure str
  | "list" => pure list
  | _ => none

def Datum.ofForm? (v : Json) : Option Datum :=
  (v.need "int" Json.integer?).map int <|> (v.need "str" Json.string?).map str
    <|> (v.need "list" Json.strings?).map list

def DataType.view : (t : DataType) → ValueTypes.Value t → Json
  | .int, n => .record [("int", .int n)]
  | .str, s => .record [("str", .string s)]
  | .list, l => .record [("list", .array (List.map .string l))]

namespace DataFunction

/-- Reads a function whose form is nested less than `n` deep. -/
def read : Nat → Json → Option DataFunction
  | 0, _ => none
  | n + 1, v => do
    let text name := v.need name Json.string?
    match ← text "do" with
    | "id" => pure .id
    | "const" => (v.need "v" Datum.ofForm?).map .const
    | "add" => (v.need "n" Json.integer?).map .add
    | "show" => pure .decimal
    | "len" => pure .length
    | "append" => (text "text").map .append
    | "split" => (text "sep").map .split
    | "join" => (text "sep").map .join
    | "push" => (text "text").map .push
    | "fail" => (text "message").map .fail
    | "jump" => pure (.jump (.after (← text "to") (← v.maybeD "delay" Json.duration? 0)))
    | "abort" => (v.need "error" EngineError.ofForm?).map .abort
    | "if_lt" =>
      pure (.ifLess (← v.need "n" Json.integer?) (← v.need "then" (read n)) (← v.need "else" (read n)))
    | "by_call" => (v.need "of" (Json.list? (read n))).map .byCall
    | "seq" => (v.need "of" (Json.list? (read n))).map .seq
    | "short_circuit" => pure .shortCircuit
    | _ => none

def ofForm? (v : Json) : Option DataFunction := read (v.depth + 1) v

end DataFunction

/-- What a setting may refer to. -/
structure SettingNames (ω C : Type) where
  handler : Json → Option (ErrorHandler C)
  sleeper : Json → Option (Sleeper ω)
  sink : Json → Option (Sink ω)
  cache : Json → Option CacheId

/-- A setting by the name of its field. -/
def PipelineSetting.ofForm? {ω C : Type} (names : SettingNames ω C) (field : String) (v : Json) :
    Option (PipelineSetting ω C) :=
  match field with
  | "short_circuit_on_exception" => v.bool?.map .shortCircuitOnException
  | "pre_post_abort" => v.bool?.map .prePostAbort
  | "on_error" => (names.handler v).map .errorHandler
  | "enable_jumps" => v.bool?.map .jumpsEnabled
  | "max_jumps_per_run" => v.count?.map .maxJumps
  | "sleeper" => (names.sleeper v).map .sleeper
  | "metrics" => (names.sink v).map .sink
  | "action_pool_cache" => (names.cache v).map .cache
  | "default_pool_max" => v.count?.map .defaultPoolMax
  | "label_last" => v.string?.map .labelLast
  | _ => none

end Pipeworks
