import Pipeworks.Config.Basic
import Pipeworks.Run.Drive
/-!
# Pipelines

A pipeline collects steps and settings until it is sealed, by hand or by its first run. Sealing binds
its steps; from then on it cannot be changed. Each run of a sealed pipeline is a run of its plan. A
start label is for one run.
-/

namespace Pipeworks

structure Pipeline (ω ι C : Type) where
  name : String
  policy : ErrorPolicy
  jumpsEnabled : Bool
  maxJumps : Nat
  specs : ByPhase (List (StepSpec ω ι C))
  /-- The labels given so far. -/
  labels : List String
  /-- The phase of the step added last. -/
  lastPhase : Option Phase
  handler : Option (ErrorHandler C)
  sleeper : Sleeper ω
  sink : Sink ω
  cache : Option CacheId
  defaultPoolMax : Option Nat
  startLabel : Option String
  /-- The plan of the bound steps, once the pipeline is sealed. -/
  plan : Option (Plan ω ι C)

namespace Pipeline
variable {ω ι C : Type}

def new [Host ω] (name : String) : Pipeline ω ι C :=
  { name := name, policy := default, jumpsEnabled := false, maxJumps := defaultMaxJumps
    specs := .const [], labels := [], lastPhase := none, handler := none, sleeper := .host
    sink := .silent, cache := none, defaultPoolMax := none, startLabel := none, plan := none }

/-- A pipeline with the policy and the limits of a configuration. -/
def ofConfig [Host ω] (name : String) (c : EngineConfig) : Pipeline ω ι C :=
  { new name with
    policy := ⟨c.shortCircuitOnException, c.prePostAbort⟩
    maxJumps := max c.maxJumpsPerRun 1
    defaultPoolMax := some (max c.poolMax 1) }

def size (p : Pipeline ω ι C) : Nat := p.specs.pre.length + p.specs.main.length + p.specs.post.length

def isEmpty (p : Pipeline ω ι C) : Bool := p.size == 0

def isSealed (p : Pipeline ω ι C) : Bool := p.plan.isSome

/-! ### Changes before sealing -/

/-- A change that a sealed pipeline refuses. -/
def change (p : Pipeline ω ι C) (operation : String)
    (f : Pipeline ω ι C → Except ConfigError (Pipeline ω ι C)) : Except ConfigError (Pipeline ω ι C) :=
  if p.isSealed then .error (.sealed p.name operation) else f p

/-- Remembers a label that is not in use. -/
def takeLabel (p : Pipeline ω ι C) (label : String) : Except ConfigError (Pipeline ω ι C) :=
  if p.labels.contains label then .error (.duplicateLabel p.name label)
  else .ok { p with labels := p.labels ++ [label] }

def addStep (p : Pipeline ω ι C) (phase : Phase) (spec : StepSpec ω ι C) :
    Except ConfigError (Pipeline ω ι C) :=
  p.change "add_step" fun p => do
    let p ← spec.label.elim (.ok p) p.takeLabel
    pure { p with specs := p.specs.push phase spec, lastPhase := some phase }

/-- Adds a shared action to a phase, with a label or without. -/
def addAction (p : Pipeline ω ι C) (phase : Phase) (label : Option String) (action : Action ω C) :
    Except ConfigError (Pipeline ω ι C) :=
  p.addStep phase { StepSpec.shared action with label := label }

/-- The last step of the list, and the steps before it. -/
def unsnoc? {α : Type} (l : List α) : Option (List α × α) := l.getLast?.map (l.dropLast, ·)

/-- Labels the step added last. -/
def labelLast (p : Pipeline ω ι C) (label : String) : Except ConfigError (Pipeline ω ι C) :=
  p.change "label_last" fun p =>
    match p.lastPhase.bind fun phase => (unsnoc? (p.specs.get phase)).map (phase, ·) with
    | none => .error (.invalidValue "label_last" "no step has been added")
    | some (phase, before, spec) =>
      match spec.label with
      | some existing =>
        .error (.invalidValue "label_last" s!"step is already labelled '{existing}'")
      | none => do
        let p ← p.takeLabel label
        pure { p with specs := p.specs.modify (fun _ => before ++ [spec.withLabel label]) phase }

def setShortCircuitOnException (p : Pipeline ω ι C) (on : Bool) : Except ConfigError (Pipeline ω ι C) :=
  p.change "short_circuit_on_exception" fun p =>
    .ok { p with policy := { p.policy with shortCircuitOnException := on } }

def setPrePostAbort (p : Pipeline ω ι C) (on : Bool) : Except ConfigError (Pipeline ω ι C) :=
  p.change "pre_post_abort" fun p => .ok { p with policy := { p.policy with prePostAbort := on } }

def setErrorHandler (p : Pipeline ω ι C) (h : ErrorHandler C) : Except ConfigError (Pipeline ω ι C) :=
  p.change "on_error" fun p => .ok { p with handler := some h }

def setJumpsEnabled (p : Pipeline ω ι C) (on : Bool) : Except ConfigError (Pipeline ω ι C) :=
  p.change "enable_jumps" fun p => .ok { p with jumpsEnabled := on }

/-- Sets the jump budget, at least one. -/
def setMaxJumps (p : Pipeline ω ι C) (max : Nat) : Except ConfigError (Pipeline ω ι C) :=
  p.change "max_jumps_per_run" fun p => .ok { p with maxJumps := Nat.max max 1 }

def setSleeper (p : Pipeline ω ι C) (s : Sleeper ω) : Except ConfigError (Pipeline ω ι C) :=
  p.change "sleeper" fun p => .ok { p with sleeper := s }

def setSink (p : Pipeline ω ι C) (s : Sink ω) : Except ConfigError (Pipeline ω ι C) :=
  p.change "metrics" fun p => .ok { p with sink := s }

def setCache (p : Pipeline ω ι C) (c : CacheId) : Except ConfigError (Pipeline ω ι C) :=
  p.change "action_pool_cache" fun p => .ok { p with cache := some c }

def setDefaultPoolMax (p : Pipeline ω ι C) (max : Nat) : Except ConfigError (Pipeline ω ι C) :=
  p.change "default_pool_max" fun p =>
    if max = 0 then .error (.invalidValue "pool_max" "must be at least 1")
    else .ok { p with defaultPoolMax := some max }

/-! ### Runs -/

/-- Starts the next run at a label. Sealed pipelines take it too. -/
def jumpTo (p : Pipeline ω ι C) (label : String) : Pipeline ω ι C := { p with startLabel := some label }

/-- The same steps and settings in a pipeline that is not sealed and starts at its first step. -/
def fork (p : Pipeline ω ι C) : Pipeline ω ι C := { p with startLabel := none, plan := none }

def site (p : Pipeline ω ι C) : Definition.Site := ⟨p.name, p.cache, p.defaultPoolMax⟩

/-- The executor for a run with a start label or without, and for a last context of a type or of any. -/
def executor (p : Pipeline ω ι C) (plan : Plan ω ι C) (expectedOutput : Option (Marker C)) :
    Executor ω ι C :=
  if p.jumpsEnabled || p.startLabel.isSome || expectedOutput.isSome then
    { Executor.addressed plan p.sink p.maxJumps p.sleeper with expectedOutput := expectedOutput }
  else .phased plan p.sink

variable [Host ω] [LocalAction ω ι C]

/-- The plan of a pipeline, which is sealed with it. A pipeline that cannot be bound stays as it is. -/
def sealPlan (p : Pipeline ω ι C) (s : Store ω ι) :
    Except (Halt ConfigError) (Plan ω ι C × Pipeline ω ι C) × Store ω ι :=
  match p.plan with
  | some plan => (.ok (plan, p), s)
  | none =>
    match Definition.bind p.site p.policy p.handler p.specs s with
    | (.error e, s) => (.error e, s)
    | (.ok d, s) =>
      let plan := Plan.ofDefinition d
      (.ok (plan, { p with plan := some plan }), s)

/-- Runs a pipeline on a context, and seals it first if need be. A run that got past sealing uses up
the start label. -/
def execute (p : Pipeline ω ι C) (expectedOutput : Option (Marker C)) (input : C) (s : Store ω ι) :
    Ending ω ι C (RunResult C) × Pipeline ω ι C × Store ω ι :=
  match p.sealPlan s with
  | (.error (.error e), s) => (.failed (.configuration e), p, s)
  | (.error (.panicked t), s) => (.panicked t, p, s)
  | (.ok (plan, p), s) =>
    let (ending, s) := (p.executor plan expectedOutput).execute p.startLabel input s
    (ending, { p with startLabel := none }, s)

end Pipeline
end Pipeworks
