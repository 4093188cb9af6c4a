import Pipeworks.Ingest
/-!
# An engine and its producers

An ingest engine together with the calls of its producers. A call has a handle of the queue while it is
under way, so it may go on behind a shutdown, which drops only the engine's own handle. A call that waits is
given a slot of the queue before it sends its payload; the slots that are kept so are not free. The worker
learns that the queue is at its end when nothing is in it and no handle of it is left, and a shutdown that
waits for the worker returns behind that. Another shutdown, which finds the worker waited for, changes nothing.

`Move` is one step of one of them. A run is any list of moves; a move that is not possible changes nothing.
-/

namespace Pipeworks

namespace Feed

/-- How a call deals with a queue that has no room. -/
inductive Way where
  /-- It waits for room. -/
  | blocking
  /-- It waits for room, and may be given up meanwhile. -/
  | async
  /-- It is rejected. -/
  | attempt

/-- How far a call has come. -/
inductive Stage where
  | begun
  /-- A slot of the queue is kept for the call. -/
  | granted
  | answered (r : Except EngineError Unit)
  /-- The call was given up. -/
  | abandoned

/-- Whether a call is under way, and so has a handle of the queue. -/
def Stage.isOpen : Stage → Bool
  | .begun | .granted => true
  | .answered _ | .abandoned => false

theorem Stage.isOpen_iff {s : Stage} : s.isOpen = true ↔ s = .begun ∨ s = .granted := by
  cases s <;> simp [isOpen]

def Stage.isGranted : Stage → Bool
  | .granted => true
  | _ => false

/-- Whether a call was told that the queue is full. -/
def Stage.isRejected : Stage → Bool
  | .answered (.error (.queueFull _)) => true
  | _ => false

structure Call (C : Type) where
  payload : C
  way : Way
  stage : Stage

/-- A payload, and the number of the call that published it. -/
structure Parcel (C : Type) where
  ticket : Nat
  payload : C

end Feed

structure Feed (ω ι C : Type) where
  engine : Ingest ω ι C
  store : Store ω ι
  calls : List (Feed.Call C)
  /-- What came into the queue so far. -/
  accepted : List (Feed.Parcel C)
  /-- What came into the queue and was not taken. -/
  line : List (Feed.Parcel C)
  /-- What the worker took and has not finished. -/
  running : Option (Feed.Parcel C)
  /-- What the worker finished, and how it ended. -/
  ended : List (Feed.Parcel C × Ending ω ι C (RunResult C))
  /-- Whether the worker found the queue at its end. -/
  drained : Bool

/-- Whether a run counts as failed. -/
def Ending.isFailure {ω ι C : Type} : Ending ω ι C (RunResult C) → Bool
  | .completed r => r.hasErrors
  | .failed _ => true
  | .panicked _ | .blocked _ => false

def Ending.isPanic {ω ι C α : Type} : Ending ω ι C α → Bool
  | .panicked _ => true
  | _ => false

namespace Feed
variable {ω ι C : Type}

/-- An engine that was just started. -/
def new (g : Ingest ω ι C) (s : Store ω ι) : Feed ω ι C :=
  { engine := g, store := s, calls := [], accepted := [], line := [], running := none, ended := []
    drained := false }

/-- What the worker took, in this order. -/
def taken (f : Feed ω ι C) : List (Parcel C) := f.ended.map Prod.fst ++ f.running.toList

/-- Slots of the queue that are kept for calls. -/
def kept (f : Feed ω ι C) : Nat := f.calls.countP (·.stage.isGranted)

/-- Calls that were told that the queue is full. -/
def refusals (f : Feed ω ι C) : Nat := f.calls.countP (·.stage.isRejected)

/-- Whether a handle of the queue is left. -/
def hasHandle (f : Feed ω ι C) : Bool := f.engine.isRunning || f.calls.any (·.stage.isOpen)

inductive Move (ω ι C : Type) where
  /-- A producer calls. -/
  | publish (payload : C) (way : Way)
  /-- A call goes on: it looks for room, or uses the slot that is kept for it. -/
  | advance (ticket : Nat)
  /-- A call that may be given up is given up. -/
  | abandon (ticket : Nat)
  /-- The worker takes a payload. -/
  | take
  /-- The run of the payload that was taken comes to its end, or is held at a step. -/
  | finish
  /-- The step answers that the run is held at. -/
  | answer (a : Answer C)
  /-- The worker finds the queue at its end. -/
  | drain
  /-- A shutdown drops the engine's handle. -/
  | stop
  /-- A shutdown has waited for the worker. -/
  | join
  /-- Others use what they share with the pipeline. -/
  | elsewhere (p : Pipeline ω ι C) (s : Store ω ι)

def enter (f : Feed ω ι C) (c : Call C) : Feed ω ι C := { f with calls := f.calls ++ [c] }

def publish (f : Feed ω ι C) (payload : C) (way : Way) : Feed ω ι C :=
  if f.engine.isRunning then f.enter ⟨payload, way, .begun⟩
  else f.enter ⟨payload, way, .answered (.error (.engineStopped f.engine.name))⟩

def mark (f : Feed ω ι C) (ticket : Nat) (c : Call C) (stage : Stage) : Feed ω ι C :=
  { f with calls := f.calls.set ticket { c with stage := stage } }

/-- The payload of a call came into the queue. -/
def accept (f : Feed ω ι C) (ticket : Nat) (c : Call C) : Feed ω ι C :=
  { f.mark ticket c (.answered (.ok ())) with
    accepted := f.accepted ++ [⟨ticket, c.payload⟩], line := f.line ++ [⟨ticket, c.payload⟩] }

/-- A call that waits looks for room. -/
def reserve (f : Feed ω ι C) (ticket : Nat) (c : Call C) : Feed ω ι C :=
  match f.engine.send f.kept c.payload with
  | (.accepted, _) => f.mark ticket c .granted
  | (.stopped, g) => f.mark ticket c (.answered (.error (.engineStopped g.name)))
  | (.full, _) => f

/-- A call sends its payload into the slot that is kept for it. -/
def deliver (f : Feed ω ι C) (ticket : Nat) (c : Call C) : Feed ω ι C :=
  { f.accept ticket c with engine := { f.engine with queue := f.engine.queue ++ [c.payload] } }

/-- A call that does not wait sends its payload if there is room. -/
def attempt (f : Feed ω ι C) (ticket : Nat) (c : Call C) : Feed ω ι C :=
  let sent := f.engine.send f.kept c.payload
  let (r, g) := Ingest.reply sent
  let f := { f with engine := g }
  match sent.1 with
  | .accepted => f.accept ticket c
  | .stopped | .full => f.mark ticket c (.answered r)

def advance (f : Feed ω ι C) (ticket : Nat) : Feed ω ι C :=
  match f.calls[ticket]? with
  | none => f
  | some c =>
    match c.stage, c.way with
    | .begun, .attempt => f.attempt ticket c
    | .begun, _ => f.reserve ticket c
    | .granted, _ => f.deliver ticket c
    | _, _ => f

def abandon (f : Feed ω ι C) (ticket : Nat) : Feed ω ι C :=
  match f.calls[ticket]? with
  | none => f
  | some c =>
    match c.stage.isOpen, c.way with
    | true, .async => f.mark ticket c .abandoned
    | _, _ => f

def take (f : Feed ω ι C) : Feed ω ι C :=
  match f.running, f.engine.take?, f.line with
  | none, some (payload, g), p :: line =>
    { f with engine := g, line := line, running := some ⟨p.ticket, payload⟩ }
  | _, _, _ => f

/-- The worker behind a run, or behind a part of it that ends at a step which holds it. -/
def conclude (f : Feed ω ι C) (p : Parcel C) (e : Ending ω ι C (RunResult C)) (g : Ingest ω ι C)
    (s : Store ω ι) : Feed ω ι C :=
  let f := { f with engine := g, store := s }
  match e with
  | .blocked _ => f
  | e => { f with running := none, ended := f.ended ++ [(p, e)] }

def drain (f : Feed ω ι C) : Feed ω ι C :=
  if f.running.isNone && f.engine.hasWorker && f.engine.queue.isEmpty && !f.hasHandle then
    { f with drained := true }
  else f

def join (f : Feed ω ι C) : Feed ω ι C :=
  if !f.engine.isRunning && (f.drained || !f.engine.hasWorker) then { f with engine := f.engine.join.2 }
  else f

variable [Host ω] [LocalAction ω ι C]

def finish (f : Feed ω ι C) : Feed ω ι C :=
  match f.running, f.engine.worker with
  | some p, .ready =>
    let (e, g, s) := f.engine.runPayload p.payload f.store
    f.conclude p e g s
  | _, _ => f

def answer (f : Feed ω ι C) (a : Answer C) : Feed ω ι C :=
  match f.running, f.engine.worker with
  | some p, .holding h =>
    let (e, s) := Executor.resume h a f.store
    f.conclude p e (f.engine.afterRun e) s
  | _, _ => f

def step (f : Feed ω ι C) : Move ω ι C → Feed ω ι C
  | .publish payload way => f.publish payload way
  | .advance ticket => f.advance ticket
  | .abandon ticket => f.abandon ticket
  | .take => f.take
  | .finish => f.finish
  | .answer a => f.answer a
  | .drain => f.drain
  | .stop => { f with engine := f.engine.stop }
  | .join => f.join
  | .elsewhere p s => { f with engine := { f.engine with pipeline := p }, store := s }

def run (f : Feed ω ι C) (ms : List (Move ω ι C)) : Feed ω ι C := ms.foldl step f

@[simp] theorem run_nil (f : Feed ω ι C) : f.run [] = f := rfl

@[simp] theorem run_cons (f : Feed ω ι C) (m : Move ω ι C) (ms : List (Move ω ι C)) :
    f.run (m :: ms) = (f.step m).run ms := rfl

/-! ### Calls -/

section
omit [Host ω] [LocalAction ω ι C]
variable {f : Feed ω ι C} {i : Nat} {c : Call C}

theorem getElem?_enter (f : Feed ω ι C) (c : Call C) : (f.enter c).calls[f.calls.length]? = some c :=
  List.getElem?_concat_length

theorem getElem?_enter_of_lt (h : i < f.calls.length) (c : Call C) : (f.enter c).calls[i]? = f.calls[i]? :=
  List.getElem?_append_left h

theorem getElem?_of_enter (f : Feed ω ι C) {c d : Call C} (h : (f.enter c).calls[i]? = some d) :
    f.calls[i]? = some d ∨ d = c := by
  rcases Nat.lt_or_ge i f.calls.length with hi | hi
  · exact .inl ((getElem?_enter_of_lt hi c).symm.trans h)
  · rw [enter, List.getElem?_append_right hi] at h
    exact .inr (List.mem_singleton.1 (List.mem_of_getElem? h))

theorem getElem?_mark {j : Nat} (hc : f.calls[i]? = some c) (stage : Stage) :
    (f.mark i c stage).calls[j]? = if i = j then some { c with stage := stage } else f.calls[j]? := by
  obtain ⟨hlt, -⟩ := List.getElem?_eq_some_iff.1 hc
  by_cases h : i = j
  · rw [mark, if_pos h, ← h, List.getElem?_set_self hlt]
  · rw [mark, if_neg h, List.getElem?_set_ne h]

theorem mark_enter (f : Feed ω ι C) (c : Call C) (stage : Stage) :
    (f.enter c).mark f.calls.length c stage = f.enter { c with stage := stage } := by
  rw [mark, enter, List.set_append_right _ _ (Nat.le_refl _), Nat.sub_self]
  rfl

theorem countP_enter (f : Feed ω ι C) (c : Call C) (p : Stage → Bool) :
    (f.enter c).calls.countP (p ·.stage) = f.calls.countP (p ·.stage) + (p c.stage).toNat := by
  rw [enter, List.countP_append, List.countP_singleton]
  cases p c.stage <;> rfl

theorem kept_enter (f : Feed ω ι C) (c : Call C) : (f.enter c).kept = f.kept + c.stage.isGranted.toNat :=
  f.countP_enter c Stage.isGranted

theorem refusals_enter (f : Feed ω ι C) (c : Call C) :
    (f.enter c).refusals = f.refusals + c.stage.isRejected.toNat :=
  f.countP_enter c Stage.isRejected

theorem countP_mark (hc : f.calls[i]? = some c) (stage : Stage) (p : Stage → Bool) :
    (f.mark i c stage).calls.countP (p ·.stage) + (p c.stage).toNat =
      f.calls.countP (p ·.stage) + (p stage).toNat := by
  obtain ⟨hlt, rfl⟩ := List.getElem?_eq_some_iff.1 hc
  -- The subtraction in `countP_set` is exact: the call was counted if its old stage counts.
  have hpos : (p f.calls[i].stage).toNat ≤ f.calls.countP (p ·.stage) := by
    cases hp : p f.calls[i].stage with
    | false => exact Nat.zero_le _
    | true => exact List.countP_pos_iff.2 ⟨_, List.getElem_mem hlt, hp⟩
  have hite (b : Bool) : (if b = true then 1 else 0) = b.toNat := by cases b <;> rfl
  rw [mark, List.countP_set hlt, hite, hite]
  dsimp only
  omega

theorem kept_mark (hc : f.calls[i]? = some c) (stage : Stage) :
    (f.mark i c stage).kept + c.stage.isGranted.toNat = f.kept + stage.isGranted.toNat :=
  countP_mark hc stage Stage.isGranted

theorem refusals_mark (hc : f.calls[i]? = some c) (ho : c.stage.isOpen = true)
    (stage : Stage) : (f.mark i c stage).refusals = f.refusals + stage.isRejected.toNat := by
  have h := countP_mark hc stage Stage.isRejected
  have hn : c.stage.isRejected = false := by
    rcases Stage.isOpen_iff.1 ho with hs | hs <;> rw [hs] <;> rfl
  rwa [hn, Bool.toNat_false, Nat.add_zero] at h

end

/-! ### What a move can do -/

omit [Host ω] [LocalAction ω ι C] in
theorem hasHandle_eq_false {f : Feed ω ι C} :
    f.hasHandle = false ↔ f.engine.isRunning = false ∧ ∀ c ∈ f.calls, c.stage.isOpen = false := by
  rw [hasHandle, Bool.or_eq_false_iff, List.any_eq_false]
  simp only [Bool.not_eq_true]

/-- How the run of a payload that the worker took goes on: it is made from its first step on, or, if it is
held, its step answers. -/
inductive Comes (f : Feed ω ι C) (c : Parcel C) :
    Ending ω ι C (RunResult C) → Pipeline ω ι C → Store ω ι → Prop where
  | ran {e : Ending ω ι C (RunResult C)} {q : Pipeline ω ι C} {t : Store ω ι}
    (hw : f.engine.worker = .ready)
    (h : f.engine.pipeline.execute none c.payload f.store = (e, q, t)) : Comes f c e q t
  | resumed {held : Held ω ι C} {a : Answer C} {e : Ending ω ι C (RunResult C)} {t : Store ω ι}
    (hw : f.engine.worker = .holding held) (h : Executor.resume held a f.store = (e, t)) :
    Comes f c e f.engine.pipeline t

theorem Comes.hasWorker {f : Feed ω ι C} {c : Parcel C} {e : Ending ω ι C (RunResult C)}
    {q : Pipeline ω ι C} {t : Store ω ι} (h : f.Comes c e q t) : f.engine.hasWorker = true := by
  cases h with
  | ran hw | resumed hw => rw [Ingest.hasWorker, hw]

/-- What a move can do. -/
inductive Shift (f : Feed ω ι C) (m : Move ω ι C) : Feed ω ι C → Prop where
  | nothing : Shift f m f
  | came (payload : C) (way : Way) (h : f.engine.isRunning = true) :
    Shift f m (f.enter ⟨payload, way, .begun⟩)
  | turnedAway (payload : C) (way : Way) (h : f.engine.isRunning = false) :
    Shift f m (f.enter ⟨payload, way, .answered (.error (.engineStopped f.engine.name))⟩)
  | granted {i : Nat} {c : Call C} (hc : f.calls[i]? = some c) (hs : c.stage = .begun)
    (hroom : f.engine.queue.length + f.kept < f.engine.capacity) : Shift f m (f.mark i c .granted)
  | sent {i : Nat} {c : Call C} (hc : f.calls[i]? = some c) (ho : c.stage.isOpen = true)
    (hroom : c.stage = .begun → f.engine.queue.length + f.kept < f.engine.capacity) :
    Shift f m (f.deliver i c)
  | rejected {i : Nat} {c : Call C} (hc : f.calls[i]? = some c) (hs : c.stage = .begun)
    (hw : c.way = .attempt) (hfull : f.engine.capacity ≤ f.engine.queue.length + f.kept) :
    Shift f m { f.mark i c (.answered (.error (.queueFull f.engine.name))) with
      engine := f.engine.reject }
  | gone {i : Nat} {c : Call C} {stage : Stage} (hc : f.calls[i]? = some c)
    (ho : c.stage.isOpen = true)
    (hs : stage = .abandoned ∨ stage = .answered (.error (.engineStopped f.engine.name))) :
    Shift f m (f.mark i c stage)
  | took {payload : C} {queue : List C} {p : Parcel C} {line : List (Parcel C)}
    (hr : f.running = none) (hw : f.engine.worker = .ready) (hq : f.engine.queue = payload :: queue)
    (hl : f.line = p :: line) :
    Shift f m { f with
      engine := { f.engine with queue := queue }, line := line, running := some ⟨p.ticket, payload⟩ }
  | held {c : Parcel C} {h : Held ω ι C} {q : Pipeline ω ι C} {t : Store ω ι} (hr : f.running = some c)
    (hc : f.Comes c (.blocked h) q t) :
    Shift f m { f with engine := { f.engine with pipeline := q, worker := .holding h }, store := t }
  | concluded {c : Parcel C} {e : Ending ω ι C (RunResult C)} {q : Pipeline ω ι C} {t : Store ω ι}
    (hr : f.running = some c) (hc : f.Comes c e q t) (he : ∀ h, e ≠ .blocked h) :
    Shift f m { f with
      engine := { f.engine with pipeline := q }.afterRun e, store := t, running := none
      ended := f.ended ++ [(c, e)] }
  | drained (hr : f.running = none) (hw : f.engine.hasWorker = true) (hq : f.engine.queue = [])
    (hh : f.hasHandle = false) : Shift f m { f with drained := true }
  | stopped : Shift f m { f with engine := f.engine.stop }
  | joined (hs : f.engine.isRunning = false) (hd : f.drained = true ∨ f.engine.hasWorker = false) :
    Shift f m { f with engine := { f.engine with joined := true } }
  | shared {q : Pipeline ω ι C} {t : Store ω ι} (hm : m = .elsewhere q t) :
    Shift f m { f with engine := { f.engine with pipeline := q }, store := t }

variable {m : Move ω ι C}

theorem shift_publish (f : Feed ω ι C) (payload : C) (way : Way) : f.Shift m (f.publish payload way) := by
  unfold publish
  cases h : f.engine.isRunning with
  | true => exact .came payload way h
  | false => exact .turnedAway payload way h

theorem shift_reserve (f : Feed ω ι C) {i : Nat} {c : Call C} (hc : f.calls[i]? = some c)
    (hs : c.stage = .begun) : f.Shift m (f.reserve i c) := by
  unfold reserve
  cases hw : f.engine.hasWorker with
  | false =>
    rw [Ingest.send_of_gone hw]
    exact .gone hc (by rw [hs]; rfl) (.inr rfl)
  | true =>
    rcases Nat.lt_or_ge (f.engine.queue.length + f.kept) f.engine.capacity with hroom | hfull
    · rw [Ingest.send_of_lt hw hroom]
      exact .granted hc hs hroom
    · rw [Ingest.send_of_le hw hfull]
      exact .nothing

theorem shift_attempt (f : Feed ω ι C) {i : Nat} {c : Call C} (hc : f.calls[i]? = some c)
    (hs : c.stage = .begun) (hway : c.way = .attempt) : f.Shift m (f.attempt i c) := by
  have ho : c.stage.isOpen = true := hs ▸ rfl
  unfold attempt
  cases hw : f.engine.hasWorker with
  | false =>
    rw [Ingest.send_of_gone hw]
    exact .gone hc ho (.inr rfl)
  | true =>
    rcases Nat.lt_or_ge (f.engine.queue.length + f.kept) f.engine.capacity with hroom | hfull
    · rw [Ingest.send_of_lt hw hroom]
      exact .sent hc ho fun _ => hroom
    · rw [Ingest.send_of_le hw hfull]
      exact .rejected hc hs hway hfull

theorem shift_advance (f : Feed ω ι C) (ticket : Nat) : f.Shift m (f.advance ticket) := by
  unfold advance
  split
  · exact .nothing
  · rename_i c hc
    split
    · exact f.shift_attempt hc ‹_› ‹_›
    · exact f.shift_reserve hc ‹_›
    · rename_i hs
      exact .sent hc (by rw [hs]; rfl) fun hb => nomatch hs.symm.trans hb
    · exact .nothing

theorem shift_abandon (f : Feed ω ι C) (ticket : Nat) : f.Shift m (f.abandon ticket) := by
  unfold abandon
  split
  · exact .nothing
  · split
    · exact .gone ‹_› ‹_› (.inl rfl)
    · exact .nothing

theorem shift_take (f : Feed ω ι C) : f.Shift m f.take := by
  unfold take
  split
  · rename_i hr ht hl
    obtain ⟨hw, queue, hq, rfl⟩ := Ingest.take?_eq_some.1 ht
    exact .took hr hw hq hl
  · exact .nothing

theorem shift_conclude (f : Feed ω ι C) {c : Parcel C} {e : Ending ω ι C (RunResult C)}
    {q : Pipeline ω ι C} {t : Store ω ι} (hr : f.running = some c) (hc : f.Comes c e q t) :
    f.Shift m (f.conclude c e ({ f.engine with pipeline := q }.afterRun e) t) := by
  cases e with
  | blocked h => exact .held hr hc
  | completed | failed | panicked => exact .concluded hr hc fun _ h => nomatch h

theorem shift_drain (f : Feed ω ι C) : f.Shift m f.drain := by
  unfold drain
  split
  · rename_i h
    simp only [Bool.and_eq_true, Bool.not_eq_true', Option.isNone_iff_eq_none, List.isEmpty_iff] at h
    obtain ⟨⟨⟨hr, hw⟩, hq⟩, hh⟩ := h
    exact .drained hr hw hq hh
  · exact .nothing

theorem shift_join (f : Feed ω ι C) : f.Shift m f.join := by
  unfold join
  split
  · rename_i h
    simp only [Bool.and_eq_true, Bool.not_eq_true', Bool.or_eq_true] at h
    have hj : f.engine.join.2 = { f.engine with joined := true } := by
      unfold Ingest.join
      split <;> rfl
    rw [hj]
    exact .joined h.1 h.2
  · exact .nothing

theorem shift_finish (f : Feed ω ι C) : f.Shift m f.finish := by
  unfold finish
  split
  · rename_i hr hw
    exact f.shift_conclude hr (.ran hw rfl)
  · exact .nothing

theorem shift_answer (f : Feed ω ι C) (a : Answer C) : f.Shift m (f.answer a) := by
  unfold answer
  split
  · rename_i hr hw
    exact f.shift_conclude hr (.resumed hw rfl)
  · exact .nothing

theorem shift_step (f : Feed ω ι C) (m : Move ω ι C) : f.Shift m (f.step m) := by
  cases m with
  | publish payload way => exact f.shift_publish payload way
  | advance ticket => exact f.shift_advance ticket
  | abandon ticket => exact f.shift_abandon ticket
  | take => exact f.shift_take
  | finish => exact f.shift_finish
  | answer a => exact f.shift_answer a
  | drain => exact f.shift_drain
  | stop => exact .stopped
  | join => exact f.shift_join
  | elsewhere q t => exact .shared rfl

/-- What every move of a run keeps holds behind it. -/
theorem run_keeps {P : Feed ω ι C → Prop} {f : Feed ω ι C} (h : P f) (ms : List (Move ω ι C))
    (hs : ∀ f f', ∀ m ∈ ms, P f → f.Shift m f' → P f') : P (f.run ms) := by
  induction ms generalizing f with
  | nil => exact h
  | cons m ms ih =>
    exact ih (hs f _ m List.mem_cons_self h (f.shift_step m)) fun f f' m hm =>
      hs f f' m (List.mem_cons_of_mem _ hm)

/-! ### Operations that nothing comes between -/

section
omit [Host ω] [LocalAction ω ι C]
variable {f : Feed ω ι C} {i : Nat} {c : Call C} {payload : C} {way : Way}

theorem publish_of_running (h : f.engine.isRunning = true) :
    f.publish payload way = f.enter ⟨payload, way, .begun⟩ :=
  if_pos h

theorem publish_of_stopped (h : f.engine.isRunning = false) :
    f.publish payload way = f.enter ⟨payload, way, .answered (.error (.engineStopped f.engine.name))⟩ :=
  if_neg (Bool.eq_false_iff.1 h)

theorem advance_attempt (hc : f.calls[i]? = some ⟨payload, .attempt, .begun⟩) :
    f.advance i = f.attempt i ⟨payload, .attempt, .begun⟩ := by
  rw [advance, hc]

theorem advance_begun (hway : way ≠ .attempt) (hc : f.calls[i]? = some ⟨payload, way, .begun⟩) :
    f.advance i = f.reserve i ⟨payload, way, .begun⟩ := by
  rw [advance, hc]
  cases way with
  | blocking | async => rfl
  | attempt => exact absurd rfl hway

theorem advance_granted (hc : f.calls[i]? = some ⟨payload, way, .granted⟩) :
    f.advance i = f.deliver i ⟨payload, way, .granted⟩ := by
  rw [advance, hc]

theorem advance_over (hc : f.calls[i]? = some c) (ho : c.stage.isOpen = false) : f.advance i = f := by
  rw [advance, hc]
  cases hs : c.stage with
  | begun | granted => rw [hs] at ho; cases ho
  | answered | abandoned => simp only [hs]

/-- A call that does not wait is answered as the offer of its payload is. -/
theorem attempt_eq (f : Feed ω ι C) (i : Nat) (c : Call C) :
    let r := Ingest.reply (f.engine.send f.kept c.payload)
    (f.attempt i c).engine = r.2 ∧ (f.attempt i c).calls = (f.mark i c (.answered r.1)).calls := by
  unfold attempt
  rcases f.engine.send f.kept c.payload with ⟨_ | _ | _, g⟩ <;> exact ⟨rfl, rfl⟩

end

variable {f : Feed ω ι C}

/-- A call that does not wait is `tryPublish`. -/
theorem run_tryPublish (hk : f.kept = 0) (payload : C) :
    let t := f.run [.publish payload .attempt, .advance f.calls.length]
    let r := f.engine.tryPublish payload
    t.engine = r.2 ∧ t.calls = f.calls ++ [⟨payload, .attempt, .answered r.1⟩] := by
  simp only [run_cons, run_nil, step, Ingest.tryPublish, Ingest.offer]
  cases hr : f.engine.isRunning with
  | false =>
    rw [publish_of_stopped hr, advance_over (getElem?_enter ..) rfl]
    exact ⟨rfl, rfl⟩
  | true =>
    rw [publish_of_running hr, advance_attempt (getElem?_enter ..)]
    obtain ⟨hengine, hcalls⟩ := attempt_eq (f.enter ⟨payload, .attempt, .begun⟩) f.calls.length
      ⟨payload, .attempt, .begun⟩
    rw [kept_enter, hk] at hengine hcalls
    rw [mark_enter] at hcalls
    exact ⟨hengine, hcalls⟩

/-- A call that waits and finds room is `offer`. -/
theorem run_offer (hk : f.kept = 0) {way : Way} (hway : way ≠ .attempt) {payload : C} {g : Ingest ω ι C}
    (h : f.engine.offer payload = (.accepted, g)) :
    let t := f.run [.publish payload way, .advance f.calls.length, .advance f.calls.length]
    t.engine = g ∧ t.calls = f.calls ++ [⟨payload, way, .answered (.ok ())⟩] := by
  unfold Ingest.offer at h
  split at h
  · rename_i hr
    have hg := Ingest.eq_of_send h
    have hreserve : (f.enter ⟨payload, way, .begun⟩).reserve f.calls.length ⟨payload, way, .begun⟩ =
        f.enter ⟨payload, way, .granted⟩ := by
      have hsend : (f.enter ⟨payload, way, .begun⟩).engine.send (f.enter ⟨payload, way, .begun⟩).kept payload =
          (.accepted, g) := by
        rw [kept_enter, hk]
        exact h
      rw [reserve, hsend]
      exact mark_enter ..
    simp only [run_cons, run_nil, step]
    rw [publish_of_running hr, advance_begun hway (getElem?_enter ..), hreserve,
      advance_granted (getElem?_enter ..)]
    refine ⟨hg.symm, ?_⟩
    exact congrArg Feed.calls (mark_enter f ⟨payload, way, .granted⟩ (.answered (.ok ())))
  · cases h

/-- A worker that takes a payload and runs it goes on by one `workStep`. -/
theorem run_workStep (hr : f.running = none) (hq : f.engine.queue = f.line.map (·.payload)) :
    let t := f.run [.take, .finish]
    (t.engine, t.store) = f.engine.workStep f.store := by
  simp only [run_cons, run_nil, step, take, Ingest.workStep, hr]
  cases ht : f.engine.take? with
  | none => simp [finish, hr]
  | some r =>
    obtain ⟨payload, g⟩ := r
    obtain ⟨hw, queue, hqueue, rfl⟩ := Ingest.take?_eq_some.1 ht
    cases hl : f.line with
    | nil =>
      rw [hqueue, hl] at hq
      cases hq
    | cons p line =>
      simp only [finish, hw, conclude]
      split <;> rfl

/-- The step that holds the run of a payload answers as in `answerHeld`. -/
theorem step_answer {p : Parcel C} (hr : f.running = some p) (a : Answer C) :
    let t := f.step (.answer a)
    (t.engine, t.store) = f.engine.answerHeld a f.store := by
  simp only [step, answer, Ingest.answerHeld, hr]
  cases f.engine.worker with
  | ready | panicked => rfl
  | holding h =>
    simp only [conclude]
    split <;> rfl

end Feed
end Pipeworks
