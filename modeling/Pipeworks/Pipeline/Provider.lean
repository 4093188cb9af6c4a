import Pipeworks.Pipeline.Builder
/-!
# Providers

A provider runs contexts on pipelines: on one that all runs share, on one from a pool, or on a new
one for every run.
-/

namespace Pipeworks

inductive ProviderMode where
  | shared
  | pooled
  | perRun
  deriving DecidableEq

def ProviderMode.name : ProviderMode → String
  | shared => "shared"
  | pooled => "pooled"
  | perRun => "per_run"

/-- A factory of pipelines. -/
abbrev PipelineFactory (ω ι C : Type) :=
  Store ω ι → Made ConfigError (Pipeline ω ι C) × Store ω ι

/-- Where the pipelines of a provider come from. -/
inductive Source (ω ι C : Type) where
  | shared (pipeline : Pipeline ω ι C)
  | pooled (factory : PipelineFactory ω ι C) (pool : Pool (Pipeline ω ι C))
  | perRun (factory : PipelineFactory ω ι C)

structure Provider (ω ι C : Type) where
  source : Source ω ι C
  cache : Option CacheId

namespace Provider
variable {ω ι C : Type}

def poolName : String := "pipeline-provider"

def shared (p : Pipeline ω ι C) : Provider ω ι C := ⟨.shared p, none⟩

/-- A provider with a pool of at most `max` pipelines; without a size, as many as the host suggests. -/
def pooled [Host ω] (factory : PipelineFactory ω ι C) (max : Option Nat) (s : Store ω ι) :
    Provider ω ι C :=
  ⟨.pooled factory (.new poolName (max.getD (defaultPoolMax s.world))), none⟩

def perRun (factory : PipelineFactory ω ι C) : Provider ω ι C := ⟨.perRun factory, none⟩

/-- Takes the pools of all pipelines from one cache. A pool of pipelines starts over. -/
def withCache (p : Provider ω ι C) (cache : CacheId) : Except ConfigError (Provider ω ι C) :=
  match p.source with
  | .shared pipeline => (pipeline.setCache cache).map fun pipeline => ⟨.shared pipeline, some cache⟩
  | .pooled factory pool => .ok ⟨.pooled factory (.new poolName pool.max), some cache⟩
  | .perRun _ => .ok { p with cache := some cache }

/-- Makes further pipelines with another factory. Those in the pool stay. -/
def withFactory (p : Provider ω ι C) (factory : PipelineFactory ω ι C) : Provider ω ι C :=
  match p.source with
  | .shared _ => p
  | .pooled _ pool => { p with source := .pooled factory pool }
  | .perRun _ => { p with source := .perRun factory }

def mode (p : Provider ω ι C) : ProviderMode :=
  match p.source with
  | .shared _ => .shared
  | .pooled .. => .pooled
  | .perRun _ => .perRun

/-- A new pipeline, with the cache of the provider. -/
def build (factory : PipelineFactory ω ι C) (cache : Option CacheId) : PipelineFactory ω ι C :=
  fun s =>
    match factory s with
    | (.made pipeline, s) =>
      match cache.elim (.ok pipeline) pipeline.setCache with
      | .ok pipeline => (.made pipeline, s)
      | .error e => (.refused e, s)
    | (m, s) => (m, s)

variable [Host ω] [LocalAction ω ι C]

/-- A run that waits for a pipeline has begun nothing, and its control stands for none yet. -/
def waiting (input : C) (s : Store ω ι) : Held ω ι C :=
  .atStart ⟨0, input, (Control.new poolName none s).1, 0⟩

/-- Runs a context. A pipeline from the pool goes back whatever the run comes to; one whose run is
held stays out. Where the pool has no pipeline to lend, the run waits for one. -/
def execute (p : Provider ω ι C) (input : C) (s : Store ω ι) :
    Ending ω ι C (RunResult C) × Provider ω ι C × Store ω ι :=
  match p.source with
  | .shared pipeline =>
    let (e, pipeline, s) := pipeline.execute none input s
    (e, { p with source := .shared pipeline }, s)
  | .perRun factory =>
    match build factory p.cache s with
    | (.refused e, s) => (.failed (.configuration e), p, s)
    | (.panicked t, s) => (.panicked t, p, s)
    | (.made pipeline, s) =>
      let (e, _, s) := pipeline.execute none input s
      (e, p, s)
  | .pooled factory pool =>
    let make := fun s => let (m, s) := build factory p.cache s; (m.mapError .configuration, s)
    let back := fun pool => { p with source := .pooled factory pool }
    match pool.borrow make s with
    | (.refused e, pool, s) => (.failed e, back pool, s)
    | (.panicked t, pool, s) => (.panicked t, back pool, s)
    | (.exhausted, pool, s) => (.blocked (waiting input s), back pool, s)
    | (.item pipeline, pool, s) =>
      match pipeline.execute none input s with
      | (.blocked h, _, s) => (.blocked h, back pool, s)
      | (e, pipeline, s) => (e, back (pool.release pipeline), s)

end Provider
end Pipeworks
