import Pipeworks.Pipeline.Labels
/-!
# Changes in place

A change in place writes to the pipeline as it goes and stops where it fails, and what it has written by
then stays written. `edit_eq`: nothing has been, so that a change is made altogether or not at all.
-/

namespace Pipeworks

/-- A change of a pipeline with its arguments. -/
inductive Change (ω ι C : Type) where
  | add (phase : Phase) (spec : StepSpec ω ι C)
  | set (x : PipelineSetting ω C)

/-- The name under which a sealed pipeline refuses a setting. -/
def PipelineSetting.operation {ω C : Type} : PipelineSetting ω C → String
  | shortCircuitOnException _ => "short_circuit_on_exception"
  | prePostAbort _ => "pre_post_abort"
  | errorHandler _ => "on_error"
  | jumpsEnabled _ => "enable_jumps"
  | maxJumps _ => "max_jumps_per_run"
  | sleeper _ => "sleeper"
  | sink _ => "metrics"
  | cache _ => "action_pool_cache"
  | defaultPoolMax _ => "default_pool_max"
  | labelLast _ => "label_last"

def Change.operation {ω ι C : Type} : Change ω ι C → String
  | add _ _ => "add_step"
  | set x => x.operation

/-- A program that writes to a pipeline, and may fail on the way. -/
abbrev Edit (ω ι C α : Type) := ExceptT ConfigError (StateM (Pipeline ω ι C)) α

namespace Edit
variable {ω ι C : Type}

def ensureMutable (operation : String) : Edit ω ι C Unit := do
  let p ← get
  if p.isSealed then throw (.sealed p.name operation)

def insertLabel (label : String) : Edit ω ι C Unit := do
  let p ← get
  if p.labels.contains label then throw (.duplicateLabel p.name label)
  set { p with labels := p.labels ++ [label] }

def push (phase : Phase) (spec : StepSpec ω ι C) : Edit ω ι C Unit := do
  if let some label := spec.label then insertLabel label
  modify fun p => { p with specs := p.specs.push phase spec }
  modify fun p => { p with lastPhase := some phase }

def labelLast (label : String) : Edit ω ι C Unit := do
  let p ← get
  match p.lastPhase.bind fun phase => (Pipeline.unsnoc? (p.specs.get phase)).map (phase, ·) with
  | none => throw (.invalidValue "label_last" "no step has been added")
  | some (phase, before, spec) =>
    if let some existing := spec.label then
      throw (.invalidValue "label_last" s!"step is already labelled '{existing}'")
    insertLabel label
    modify fun p => { p with specs := p.specs.modify (fun _ => before ++ [spec.withLabel label]) phase }

def write : PipelineSetting ω C → Edit ω ι C Unit
  | .shortCircuitOnException on =>
    modify fun p => { p with policy := { p.policy with shortCircuitOnException := on } }
  | .prePostAbort on => modify fun p => { p with policy := { p.policy with prePostAbort := on } }
  | .errorHandler h => modify fun p => { p with handler := some h }
  | .jumpsEnabled on => modify fun p => { p with jumpsEnabled := on }
  | .maxJumps max => modify fun p => { p with maxJumps := Nat.max max 1 }
  | .sleeper s => modify fun p => { p with sleeper := s }
  | .sink s => modify fun p => { p with sink := s }
  | .cache c => modify fun p => { p with cache := some c }
  | .defaultPoolMax max => do
    if max = 0 then throw (.invalidValue "pool_max" "must be at least 1")
    modify fun p => { p with defaultPoolMax := some max }
  | .labelLast label => labelLast label

def change (c : Change ω ι C) : Edit ω ι C Unit := do
  ensureMutable c.operation
  match c with
  | .add phase spec => push phase spec
  | .set x => write x

end Edit

namespace Pipeline
variable {ω ι C : Type}

def apply (p : Pipeline ω ι C) : Change ω ι C → Except ConfigError (Pipeline ω ι C)
  | .add phase spec => p.addStep phase spec
  | .set x => p.set x

/-- Makes a change in place. -/
def edit (p : Pipeline ω ι C) (c : Change ω ι C) : Except ConfigError Unit × Pipeline ω ι C :=
  (Edit.change c).run.run p

variable {p q : Pipeline ω ι C} {c : Change ω ι C}

/-- The answer of a change, and what is left in the place of the pipeline. -/
def inPlace (p : Pipeline ω ι C) :
    Except ConfigError (Pipeline ω ι C) → Except ConfigError Unit × Pipeline ω ι C
  | .ok q => (.ok (), q)
  | .error e => (.error e, p)

theorem change_of_unsealed (h : p.plan = none) (operation : String)
    (f : Pipeline ω ι C → Except ConfigError (Pipeline ω ι C)) : p.change operation f = f p :=
  if_neg (by simp [isSealed, h])

theorem apply_of_sealed {plan : Plan ω ι C} (h : p.plan = some plan) (c : Change ω ι C) :
    p.apply c = .error (.sealed p.name c.operation) := by
  have hs : p.isSealed = true := by simp [isSealed, h]
  cases c with
  | add phase spec => exact if_pos hs
  | set x => cases x <;> exact if_pos hs

/-! ### Programs and what they make -/

theorem run_bind {α : Type} (x : Edit ω ι C α) (f : α → Edit ω ι C Unit) :
    (x >>= f).run.run p =
      match x.run.run p with
      | (.ok a, q) => (f a).run.run q
      | (.error e, q) => (.error e, q) := by
  show StateT.run (ExceptT.run x >>= ExceptT.bindCont f) p = _
  rw [StateT.run_bind]
  rcases StateT.run (ExceptT.run x) p with ⟨e | a, q⟩ <;> rfl

theorem run_get : (get : Edit ω ι C _).run.run p = (.ok p, p) := rfl

theorem run_insertLabel (label : String) :
    (Edit.insertLabel label).run.run p = p.inPlace (p.takeLabel label) := by
  unfold Edit.insertLabel takeLabel
  rw [run_bind, run_get]
  simp only
  split
  · rfl
  · rfl

theorem run_push (h : p.plan = none) (phase : Phase) (spec : StepSpec ω ι C) :
    (Edit.push phase spec).run.run p = p.inPlace (p.addStep phase spec) := by
  unfold Edit.push
  rw [addStep, change_of_unsealed h]
  cases spec.label with
  | none => rfl
  | some label =>
    simp only [run_bind, run_insertLabel, Option.elim_some]
    cases p.takeLabel label <;> rfl

theorem run_labelLast (h : p.plan = none) (label : String) :
    (Edit.labelLast label).run.run p = p.inPlace (p.labelLast label) := by
  unfold Edit.labelLast
  rw [labelLast, change_of_unsealed h, run_bind, run_get]
  simp only
  rcases p.lastPhase.bind fun phase => (unsnoc? (p.specs.get phase)).map (phase, ·) with
    _ | ⟨phase, before, spec⟩
  · rfl
  · simp only
    cases spec.label with
    | some existing => rfl
    | none =>
      simp only [run_bind, run_insertLabel]
      cases p.takeLabel label <;> rfl

theorem run_write (h : p.plan = none) (x : PipelineSetting ω C) :
    (Edit.write x).run.run p = p.inPlace (p.set x) := by
  cases x with
  | labelLast label => exact run_labelLast h label
  | defaultPoolMax max =>
    rw [set, setDefaultPoolMax, change_of_unsealed h, Edit.write]
    split
    · rfl
    · rfl
  | shortCircuitOnException on | prePostAbort on | errorHandler g | jumpsEnabled on | maxJumps max
  | sleeper s | sink s | cache c =>
    simp only [set, setShortCircuitOnException, setPrePostAbort, setErrorHandler, setJumpsEnabled,
      setMaxJumps, setSleeper, setSink, setCache, change_of_unsealed h]
    rfl

/-- A change made in place makes the changed pipeline, or leaves the pipeline as it was. -/
theorem edit_eq (p : Pipeline ω ι C) (c : Change ω ι C) : p.edit c = p.inPlace (p.apply c) := by
  have hensure : (Edit.ensureMutable c.operation).run.run p =
      (if p.isSealed then .error (.sealed p.name c.operation) else .ok (), p) := by
    unfold Edit.ensureMutable
    rw [run_bind, run_get]
    simp only
    split
    · rfl
    · rfl
  unfold edit Edit.change
  rw [run_bind, hensure]
  cases hp : p.plan with
  | some plan =>
    have hs : p.isSealed = true := by simp [isSealed, hp]
    rw [apply_of_sealed hp, if_pos hs]
    rfl
  | none =>
    have hs : p.isSealed = false := by simp [isSealed, hp]
    rw [if_neg (Bool.eq_false_iff.1 hs)]
    cases c with
    | add phase spec => exact run_push hp phase spec
    | set x => exact run_write hp x

theorem takeLabel_eq_error {label : String} {f : Pipeline ω ι C → Pipeline ω ι C} {e : ConfigError}
    (h : (do pure (f (← p.takeLabel label))) = Except.error e) : e = .duplicateLabel p.name label := by
  unfold takeLabel at h
  split at h
  · exact (Except.error.inj h).symm
  · cases h

/-- What is wrong with a change of a pipeline that is not sealed: its label is taken, or a value is
refused. -/
theorem apply_eq_error {e : ConfigError} (hp : p.plan = none) (h : p.apply c = .error e) :
    (∃ label, e = .duplicateLabel p.name label) ∨ ∃ field reason, e = .invalidValue field reason := by
  rcases c with ⟨phase, spec⟩ | x
  · rw [apply, addStep, change_of_unsealed hp] at h
    cases hl : spec.label with
    | none =>
      rw [hl] at h
      cases h
    | some label =>
      rw [hl] at h
      exact .inl ⟨label, takeLabel_eq_error h⟩
  · have hwrite := run_write hp x
    rw [show p.set x = .error e from h] at hwrite
    cases x with
    | labelLast label =>
      rw [apply, set, labelLast, change_of_unsealed hp] at h
      split at h
      · cases h
        exact .inr ⟨_, _, rfl⟩
      · split at h
        · cases h
          exact .inr ⟨_, _, rfl⟩
        · exact .inl ⟨label, takeLabel_eq_error h⟩
    | defaultPoolMax max =>
      rw [apply, set, setDefaultPoolMax, change_of_unsealed hp] at h
      split at h
      · cases h
        exact .inr ⟨_, _, rfl⟩
      · cases h
    -- The other settings are written without a check.
    | _ => cases congrArg Prod.fst hwrite

theorem edit_of_sealed {plan : Plan ω ι C} (h : p.plan = some plan) (c : Change ω ι C) :
    p.edit c = (.error (.sealed p.name c.operation), p) := by
  rw [edit_eq, apply_of_sealed h]
  rfl

theorem edit_eq_ok : p.edit c = (.ok (), q) ↔ p.apply c = .ok q := by
  rw [edit_eq]
  cases p.apply c with
  | ok r => simp [inPlace]
  | error e => simp [inPlace]

theorem apply_of_edit_error {e : ConfigError} (h : (p.edit c).1 = .error e) : p.apply c = .error e := by
  rw [edit_eq] at h
  cases ha : p.apply c with
  | ok q =>
    rw [ha] at h
    cases h
  | error e' =>
    rw [ha] at h
    rw [Except.error.inj h]

theorem edit_of_error {e : ConfigError} (h : (p.edit c).1 = .error e) : (p.edit c).2 = p := by
  rw [edit_eq, apply_of_edit_error h]
  rfl

theorem code_of_edit_error {e : ConfigError} (hp : p.plan = none) (h : (p.edit c).1 = .error e) :
    e.code? ≠ some "CONFIG-002-SEALED" := by
  rcases apply_eq_error hp (apply_of_edit_error h) with ⟨label, rfl⟩ | ⟨field, reason, rfl⟩
  · show some "CONFIG-001-DUPLICATE_LABEL" ≠ some "CONFIG-002-SEALED"
    decide
  · show some "CONFIG-007-INVALID_VALUE" ≠ some "CONFIG-002-SEALED"
    decide

end Pipeline
end Pipeworks
