import Pipeworks.Pipeline.Builder
/-!
# Settings of pipelines as data
-/

namespace Pipeworks

/-- One setting of a pipeline with its new value. -/
inductive PipelineSetting (ω C : Type) where
  | shortCircuitOnException (on : Bool)
  | prePostAbort (on : Bool)
  | errorHandler (h : ErrorHandler C)
  | jumpsEnabled (on : Bool)
  | maxJumps (max : Nat)
  | sleeper (s : Sleeper ω)
  | sink (s : Sink ω)
  | cache (c : CacheId)
  | defaultPoolMax (max : Nat)
  | labelLast (label : String)

def Pipeline.set {ω ι C : Type} (p : Pipeline ω ι C) :
    PipelineSetting ω C → Except ConfigError (Pipeline ω ι C)
  | .shortCircuitOnException on => p.setShortCircuitOnException on
  | .prePostAbort on => p.setPrePostAbort on
  | .errorHandler h => p.setErrorHandler h
  | .jumpsEnabled on => p.setJumpsEnabled on
  | .maxJumps max => p.setMaxJumps max
  | .sleeper s => p.setSleeper s
  | .sink s => p.setSink s
  | .cache c => p.setCache c
  | .defaultPoolMax max => p.setDefaultPoolMax max
  | .labelLast label => p.labelLast label

end Pipeworks
