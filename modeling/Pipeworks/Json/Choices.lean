import Pipeworks.Json.Decode
import Pipeworks.Config.Basic
import Pipeworks.Pipeline.Provider
/-!
# Choices as values

Each choice is written as its name. A lifecycle is a tagged choice: its mode, and for pooled instances
the size of the pool.
-/

namespace Pipeworks

namespace Phase

def toJson (p : Phase) : Json := .string p.name

def ofJson? (v : Json) : Option Phase := v.choice? ofName?

end Phase

namespace LogFormat

def toJson (f : LogFormat) : Json := .string f.name

def ofName? (s : String) : Option LogFormat := [text, json].find? (·.name == s)

def ofJson? (v : Json) : Option LogFormat := v.choice? ofName?

end LogFormat

namespace ProviderMode

def toJson (m : ProviderMode) : Json := .string m.name

def ofName? (s : String) : Option ProviderMode := [shared, pooled, perRun].find? (·.name == s)

def ofJson? (v : Json) : Option ProviderMode := v.choice? ofName?

end ProviderMode

namespace InvokeStyle

def toJson (s : InvokeStyle) : Json := .string s.name

def ofName? (s : String) : Option InvokeStyle := [unary, controlled].find? (·.name == s)

def ofJson? (v : Json) : Option InvokeStyle := v.choice? ofName?

end InvokeStyle

namespace Lifecycle

def toJson : Lifecycle → Json
  | shared => .record [("mode", .string "shared")]
  | perRun => .record [("mode", .string "per_run")]
  | pooled max => .record [("mode", .string "pooled"), ("max", Json.orNull .nat max)]

def ofJson? (v : Json) : Option Lifecycle := do
  let (mode, rest) ← v.tagged? "mode"
  match mode with
  | "shared" => if rest.isBare then some shared else none
  | "per_run" => if rest.isBare then some perRun else none
  | "pooled" =>
    let max ← (← rest.fields? ["max"]).optional "max" (Json.nullable? Json.nat?)
    pure (pooled max.join)
  | _ => none

end Lifecycle
end Pipeworks
