import Pipeworks.Bench
import Pipeworks.Form.Script
import Pipeworks.Script.DataPipeline
import Pipeworks.Testing.Expectation
import Pipeworks.Testing.Supply
/-!
# Forms of what works on a bench
-/

namespace Pipeworks

namespace Bench

/-- A counted action. Only jumps that are numbered have a delay. -/
def countedOfForm? (v : Json) : Option Testing.Counted := do
  match ← v.need "kind" Json.string? with
  | "counting" => pure .counting
  | "failing" => pure (.failing (← v.need "message" Json.string?))
  | "jumping" =>
    let target ← v.need "to" Json.string?
    match ← v.maybe "times" Json.count? with
    | none => pure (.jumping target Testing.forever 0)
    | some times => pure (.jumping target times (← v.maybeD "delay" Json.duration? 0))
  | _ => none

/-- An action of a kind whose calls, if they are counted, are counted in a cell. -/
def plainActionOfForm? (build : Nat) (v : Json) (calls : Cell Bench Nat) :
    Option (Action Bench String) := do
  let script := v.need "script" (Script.ofForm? build)
  let name := v.need "name" Json.string?
  match ← v.need "kind" Json.string? with
  | "map" | "pure" => pure (Script.action .plain (← script) calls)
  | "controlled" => pure (Script.action .controlled (← script) calls)
  | "fallible" => pure (Script.action .fallible (← script) calls)
  | "metrics_output" => pure (Report.action (← name) reportsCell.append)
  | "metrics_log" => pure (Report.action (← name) fun r => logCell.append (.report r))
  | "collect" => pure (Testing.collecting collectedCell)
  | "hold" => pure (Testing.gate (· == "hold"))
  | _ => pure ((← countedOfForm? v).action calls)

/-- An action. A counted action with a name is the one that was first described under it. -/
def actionOfForm? (build : Nat) (v : Json) (b : Bench) : Option (Action Bench String × Bench) := do
  match countedOfForm? v, v.need "ref" Json.string? with
  | some a, some name =>
    let (a, b) := b.share name a
    pure (a.action (callsOf (.named name)), b)
  | _, _ =>
    let (slot, b) := b.newSlot
    pure (← plainActionOfForm? build v (callsOf slot), b)

/-- A refusal in a list of calls that may be refused: what names no error is granted. -/
def refusalOfForm? {α : Type} (f : Json → Option α) (v : Json) : Option (Option α) :=
  match v.member? "fail" with
  | some e => (f e).map some
  | none => some none

def resetOfForm? : Json → Option ResetOutcome
  | .text _ => some .done
  | v =>
    (v.need "fail" ActionError.ofForm?).map .failed <|> (v.need "panic" Json.string?).map .panicked

/-- A factory of probes or of scripted instances. Instances that are counted under a name share their
counts with all others under it. -/
def factoryOfForm? (probes : String → Slot) (build : Nat) (v : Json) (b : Bench) :
    Option (LocalFactory Bench (Instance Bench) × Bench) := do
  match v.member? "probe" with
  | some name => pure (Instance.probeFactory (probeOf (probes (← name.string?))), b)
  | none =>
    let (slot, b) := ((v.need "stats" Json.string?).map fun n => (Slot.named n, b)).getD b.newSlot
    let action : ScriptedAction Bench :=
      { typeName := ← v.need "type" Json.string?, style := ← v.maybeD "style" InvokeStyle.ofJson? .controlled
        script := ← v.need "script" (Script.ofForm? build)
        resets := ← v.maybe "reset" (Json.list? resetOfForm?)
        builds := ← v.many "factory" (refusalOfForm? ActionError.ofForm?), stats := statsOf slot }
    pure (action.factory, b)

def sinkOfForm? (v : Json) : Option (Sink Bench) := v.string?.map fun
  | "noop" => .silent
  | "logging" => .logging .info logCell
  | name => .collecting (eventsOf (.named name))

/-- A sleeper whose delays are kept in a slot. -/
def sleeperOfForm? (slot : Slot) (v : Json) : Option (Sleeper Bench) := do
  match ← v.need "how" Json.string? with
  | "recording" => pure (.recording (delaysOf slot))
  | "thread" => pure .host
  | "closure" =>
    let failAt ← v.maybe "fail_at" Json.count?
    let fault ← v.maybe "fault" EngineError.ofForm?
    pure (.faulty (delaysOf slot) fun n =>
      if some n = failAt then some (fault.getD (.interrupted s!"sleep {n}")) else none)
  | _ => none

end Bench

/-- The settings of an engine on a bench, whose pools are small. -/
def EngineConfig.ofForm? (v : Json) : Option EngineConfig := do
  let d := default 4
  pure {
    shortCircuitOnException := ← v.maybeD "short_circuit_on_exception" Json.bool? d.shortCircuitOnException
    prePostAbort := ← v.maybeD "pre_post_abort" Json.bool? d.prePostAbort
    maxJumpsPerRun := ← v.maybeD "max_jumps_per_run" Json.count? d.maxJumpsPerRun
    poolMax := ← v.maybeD "pool_max" Json.count? d.poolMax
    ingestBuffer := ← v.maybeD "ingest_buffer" Json.count? d.ingestBuffer
    logFormat := d.logFormat }

def CacheKey.ofForm? (v : Json) : Option CacheKey := do
  pure ⟨← v.need "pipeline" Json.string?, ← v.need "phase" Phase.ofJson?, ← v.need "index" Json.count?,
    ← v.maybe "name" Json.string?⟩

def Event.ofForm? (v : Json) : Option Event := do
  match ← v.items? with
  | name :: args =>
    match ← name.string?, args with
    | "step_start", [i, l] => pure (stepStart (← i.count?) (← l.string?))
    | "step_end", [i, l, n, s] => pure (stepEnd (← i.count?) (← l.string?) (← n.count?) (← s.bool?))
    | "step_error", [i, l, e] =>
      pure (stepError (← i.count?) (← l.string?) (← ActionError.ofForm? e).display)
    | "jump", [a, b, n] => pure (jump (← a.string?) (← b.string?) (← n.count?))
    | "end", [s, n, e] =>
      let error ← Json.nullable? EngineError.ofForm? e
      pure (pipelineEnd (← s.bool?) (← n.count?) (error.map (·.message)))
    | _, _ => none
  | [] => none

def Expectation.ofForm? (v : Json) : Option Expectation := do
  match ← v.need "check" Json.string? with
  | "succeeded" => pure succeeded
  | "short_circuited" => pure shortCircuited
  | "error_at" => pure (errorAt (← v.need "phase" Phase.ofJson?) (← v.need "index" Json.count?))
  | "error_steps" => pure (errorSteps (← v.many "names" Json.string?))
  | "timings" => pure (timings (← v.many "names" Json.string?))
  | _ => none

namespace DataCall

/-- The names in the settings of a typed pipeline: its sleeper, and a handler with a fixed value. -/
def names (sleeper : Sleeper Bench) (sink : Sink Bench) : SettingNames Bench Datum where
  handler v := (Datum.ofForm? v).map fun d _ _ => d
  sleeper _ := some sleeper
  sink _ := some sink
  cache _ := none

def ofForm? (n : SettingNames Bench Datum) (v : Json) : Option (DataCall Bench) := do
  let label := v.need "label" Json.string?
  let f := v.need "fn" DataFunction.ofForm?
  match ← v.need "call" Json.string? with
  | "pre" => pure (pre (← label) (← f))
  | "post" => pure (post (← label) (← f))
  | "step" =>
    pure (step (← label) (← f) (← v.need "out" DataType.ofForm?) (← v.maybeD "control" Json.bool? false))
  | "configure" =>
    let field ← v.need "field" Json.string?
    (PipelineSetting.ofForm? n field ((v.member? "to").getD .null)).map configure
  | _ => none

end DataCall
end Pipeworks
