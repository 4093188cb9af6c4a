import Pipeworks.Pipeline.Builder
/-!
# Ingest engines

An ingest engine runs payloads on a pipeline one after another. Producers put them into a bounded
queue, from which one worker takes them in order. Stopping the engine closes the queue; what is in it
is still run.

Each operation here is one step of a producer or of the worker. `work` lets the worker go on as far as
it can.
-/

namespace Pipeworks

structure IngestStats where
  processed : Nat
  failed : Nat
  rejected : Nat
  deriving DecidableEq

/-- What the worker does. A worker whose run panicked takes nothing any more. -/
inductive Worker (ω ι C : Type) where
  | ready
  | holding (h : Held ω ι C)
  | panicked

structure Ingest (ω ι C : Type) where
  name : String
  pipeline : Pipeline ω ι C
  capacity : Nat
  queue : List C
  /-- Whether payloads are still accepted. -/
  isRunning : Bool
  worker : Worker ω ι C
  /-- Whether the worker was waited for. -/
  joined : Bool
  stats : IngestStats

namespace Ingest
variable {ω ι C : Type}

/-- What becomes of a payload offered to the queue. `full` leaves a producer that can wait waiting. -/
inductive Offer where
  | accepted
  | stopped
  | full
  deriving DecidableEq

def hasWorker (g : Ingest ω ι C) : Bool :=
  match g.worker with
  | .panicked => false
  | _ => true

/-- Sends a payload into the queue, where `kept` slots are kept for others. -/
def send (g : Ingest ω ι C) (kept : Nat) (payload : C) : Offer × Ingest ω ι C :=
  if !g.hasWorker then (.stopped, g)
  else if g.queue.length + kept < g.capacity then (.accepted, { g with queue := g.queue ++ [payload] })
  else (.full, g)

section
variable {g : Ingest ω ι C} {kept : Nat}

theorem send_of_gone (h : g.hasWorker = false) (payload : C) : g.send kept payload = (.stopped, g) := by
  simp [send, h]

theorem send_of_lt (hw : g.hasWorker = true) (h : g.queue.length + kept < g.capacity) (payload : C) :
    g.send kept payload = (.accepted, { g with queue := g.queue ++ [payload] }) := by
  simp [send, hw, h]

theorem send_of_le (hw : g.hasWorker = true) (h : g.capacity ≤ g.queue.length + kept) (payload : C) :
    g.send kept payload = (.full, g) := by
  simp [send, hw, Nat.not_lt.2 h]

end

/-- A payload that is accepted is behind all others. -/
theorem eq_of_send {g g' : Ingest ω ι C} {kept : Nat} {payload : C}
    (h : g.send kept payload = (.accepted, g')) : g' = { g with queue := g.queue ++ [payload] } := by
  unfold send at h
  split at h
  · cases h
  · split at h
    · cases h
      rfl
    · cases h

/-- Offers a payload to the queue. -/
def offer (g : Ingest ω ι C) (payload : C) : Offer × Ingest ω ι C :=
  if g.isRunning then g.send 0 payload else (.stopped, g)

/-- Counts a payload that found no room. -/
def reject (g : Ingest ω ι C) : Ingest ω ι C :=
  { g with stats := { g.stats with rejected := g.stats.rejected + 1 } }

/-- The answer to a producer that does not wait. -/
def reply : Offer × Ingest ω ι C → Except EngineError Unit × Ingest ω ι C
  | (.accepted, g) => (.ok (), g)
  | (.stopped, g) => (.error (.engineStopped g.name), g)
  | (.full, g) => (.error (.queueFull g.name), g.reject)

/-- Offers a payload that is rejected if there is no room. -/
def tryPublish (g : Ingest ω ι C) (payload : C) : Except EngineError Unit × Ingest ω ι C :=
  reply (g.offer payload)

/-- Counts a payload whose run came to an end. -/
def count (g : Ingest ω ι C) (failed : Bool) : Ingest ω ι C :=
  { g with stats := { g.stats with
      processed := g.stats.processed + 1, failed := g.stats.failed + if failed then 1 else 0 } }

/-- The worker after the run of a payload. -/
def afterRun (g : Ingest ω ι C) : Ending ω ι C (RunResult C) → Ingest ω ι C
  | .completed r => { g.count r.hasErrors with worker := .ready }
  | .failed _ => { g.count true with worker := .ready }
  | .panicked _ => { g with worker := .panicked, queue := [] }
  | .blocked h => { g with worker := .holding h }

section
variable (g : Ingest ω ι C) (e : Ending ω ι C (RunResult C))

@[simp] theorem afterRun_name : (g.afterRun e).name = g.name := by cases e <;> rfl

@[simp] theorem afterRun_capacity : (g.afterRun e).capacity = g.capacity := by cases e <;> rfl

@[simp] theorem afterRun_isRunning : (g.afterRun e).isRunning = g.isRunning := by cases e <;> rfl

@[simp] theorem afterRun_joined : (g.afterRun e).joined = g.joined := by cases e <;> rfl

@[simp] theorem afterRun_pipeline : (g.afterRun e).pipeline = g.pipeline := by cases e <;> rfl

end

/-- Closes the queue. -/
def stop (g : Ingest ω ι C) : Ingest ω ι C := { g with isRunning := false }

/-- The end of a shutdown: the worker has been waited for. The first wait learns of a panic. -/
def join (g : Ingest ω ι C) : Except EngineError Unit × Ingest ω ι C :=
  let joined := { g with joined := true }
  if g.joined || g.hasWorker then (.ok (), joined)
  else (.error (.internal s!"ingest worker '{g.name}' panicked"), joined)

/-- The greatest capacity of a queue: a word without its three highest bits. -/
def maxCapacity : Nat := maxWord / 8

/-- What the system calls the worker of an engine. -/
def workerName (name : String) : String := "ingest-" ++ name

/-- The panic at a name that has a byte of zero, where names end for the system. -/
def nameFault? (name : String) : Option String :=
  let bytes := name.toUTF8.toList
  let listed := ", ".intercalate (bytes.map fun b => toString b.toNat)
  (bytes.idxOf? 0).map fun position =>
    s!"thread name may not contain interior null bytes: NulError({position}, [{listed}])"

/-- The panic at a queue or a worker that the system does not provide. The queue comes first. -/
def startFault? (name : String) (buffer : Nat) : Option String :=
  if maxCapacity < buffer then
    some s!"a semaphore may not have more than MAX_PERMITS permits ({maxCapacity})"
  else nameFault? (workerName name)

variable [Host ω] [LocalAction ω ι C]

/-- An engine on a pipeline, which is sealed for it. -/
def start (name : String) (p : Pipeline ω ι C) (buffer : Nat) (s : Store ω ι) :
    Except (Halt ConfigError) (Ingest ω ι C) × Store ω ι :=
  if buffer = 0 then
    (.error (.error (.invalidValue "ingest_buffer" "must be at least 1")), s)
  else
    match p.sealPlan s with
    | (.error e, s) => (.error e, s)
    | (.ok (_, p), s) =>
      match startFault? name buffer with
      | some t => (.error (.panicked t), s)
      | none =>
        (.ok { name := name, pipeline := p, capacity := buffer, queue := [], isRunning := true
               worker := .ready, joined := false, stats := ⟨0, 0, 0⟩ }, s)

theorem start_eq_ok {name : String} {p : Pipeline ω ι C} {buffer : Nat} {s s' : Store ω ι}
    {g : Ingest ω ι C} (h : start name p buffer s = (.ok g, s')) :
    ∃ q, g = { name := name, pipeline := q, capacity := buffer, queue := [], isRunning := true
               worker := .ready, joined := false, stats := ⟨0, 0, 0⟩ } := by
  unfold start at h
  split at h
  · cases h
  · split at h
    · cases h
    · split at h
      · cases h
      · cases h
        exact ⟨_, rfl⟩

/-- The payload that has waited longest, if the worker can take one, and the engine without it. -/
def take? (g : Ingest ω ι C) : Option (C × Ingest ω ι C) :=
  match g.worker, g.queue with
  | .ready, payload :: queue => some (payload, { g with queue := queue })
  | _, _ => none

omit [Host ω] [LocalAction ω ι C] in
theorem take?_eq_some {g g' : Ingest ω ι C} {payload : C} :
    g.take? = some (payload, g') ↔
      g.worker = .ready ∧ ∃ queue, g.queue = payload :: queue ∧ g' = { g with queue := queue } := by
  unfold take?
  constructor
  · intro h
    split at h
    · cases h
      exact ⟨‹_›, _, ‹_›, rfl⟩
    · cases h
  · rintro ⟨hw, queue, hq, rfl⟩
    rw [hw, hq]

/-- The worker runs a payload that it took. -/
def runPayload (g : Ingest ω ι C) (payload : C) (s : Store ω ι) :
    Ending ω ι C (RunResult C) × Ingest ω ι C × Store ω ι :=
  let (e, p, s) := g.pipeline.execute none payload s
  (e, { g with pipeline := p }.afterRun e, s)

/-- The worker takes the payload that has waited longest and runs it. -/
def workStep (g : Ingest ω ι C) (s : Store ω ι) : Ingest ω ι C × Store ω ι :=
  match g.take? with
  | some (payload, g) => (g.runPayload payload s).2
  | none => (g, s)

/-- The worker goes on until it waits for a payload or for the step of a held run. -/
def work (g : Ingest ω ι C) (s : Store ω ι) : Ingest ω ι C × Store ω ι :=
  go g.queue.length g s
where
  go : Nat → Ingest ω ι C → Store ω ι → Ingest ω ι C × Store ω ι
    | 0, g, s => (g, s)
    | n + 1, g, s => let (g, s) := g.workStep s; go n g s

/-- The step that the worker's run is held at answers. -/
def answerHeld (g : Ingest ω ι C) (answer : Answer C) (s : Store ω ι) : Ingest ω ι C × Store ω ι :=
  match g.worker with
  | .holding h =>
    let (e, s) := Executor.resume h answer s
    (g.afterRun e, s)
  | _ => (g, s)

end Ingest
end Pipeworks
