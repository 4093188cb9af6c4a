import Pipeworks.Pipeline.Session
/-!
# Calls of a session

What is done to a session, as a list of calls. `Sitting` is a session with its store, and with the
applications of its steps since it was started or reset; nothing reads these but statements about
sessions. A step is applied if `applied?` says so: what adding a step does to the session is read off
`addStep_of_none` and `addStep_of_some`.
-/

namespace Pipeworks
namespace Session
variable {ω ι C : Type}

/-- What can be done to a session. Freezing makes a pipeline and leaves the session as it is. -/
inductive Call (ω ι C : Type) where
  | add (phase : Phase) (spec : StepSpec ω ι C)
  | reset (initial : C)
  | clearRecorded
  | freeze

/-- The control that the next step of a phase is begun with. -/
def begun (z : Session ω ι C) (phase : Phase) (label : Option String) : Control C :=
  z.control.beginStep phase (z.nextIndex.get phase) (phase.stepName (z.nextIndex.get phase) label)

/-- The session that has kept a step, whose application left marks. -/
def keep (z : Session ω ι C) (phase : Phase) (spec : StepSpec ω ι C) (m : Control.Marks) :
    Session ω ι C :=
  { z with
    recorded := z.recorded.push phase spec
    nextIndex := z.nextIndex.modify (· + 1) phase
    control := (z.begun phase spec.label).absorb m }

/-- The session behind an application that took `d`. -/
def behind (z : Session ω ι C) (phase : Phase) (spec : StepSpec ω ι C) (d : Nanos)
    (a : Applied (Store ω ι) C) : Session ω ι C :=
  match a.outcome with
  | .answered answer => ((z.keep phase spec a.marks).settle d answer).2
  | .panicked _ | .blocked => z.keep phase spec a.marks

/-- Behind an application the session has kept the step; its value, its end and its control are new. -/
theorem behind_eq (z : Session ω ι C) (phase : Phase) (spec : StepSpec ω ι C) (d : Nanos)
    (a : Applied (Store ω ι) C) : ∃ v e c, z.behind phase spec d a =
      { z.keep phase spec a.marks with value := v, ended := e, control := c } := by
  unfold behind
  split
  · unfold settle
    split
    · exact ⟨_, _, _, rfl⟩
    · split
      · exact ⟨_, _, _, rfl⟩
      · split <;> exact ⟨_, _, _, rfl⟩
  · exact ⟨_, _, _, rfl⟩
  · exact ⟨_, _, _, rfl⟩

variable [Host ω] [LocalAction ω ι C]

/-- The application that adding a step makes: none if the session has ended or the step cannot be
bound. -/
def applied? (z : Session ω ι C) (phase : Phase) (spec : StepSpec ω ι C) (s : Store ω ι) :
    Option (Applied (Store ω ι) C) :=
  if z.ended then none
  else
    match spec.manager.bind ⟨z.name, phase, z.nextIndex.get phase, spec.label, none, none⟩ s with
    | (.error _, _) => none
    | (.ok action, s) => some (action.apply z.value (z.begun phase spec.label) s)

section
variable {z : Session ω ι C} {phase : Phase} {spec : StepSpec ω ι C} {s : Store ω ι}

theorem addStep_of_ended (h : z.ended = true) : z.addStep phase spec s = (.value z.value, z, s) := by
  rw [addStep, if_pos h]

theorem applied?_of_ended (h : z.ended = true) : z.applied? phase spec s = none := by
  rw [applied?, if_pos h]

theorem open_of_applied? {a : Applied (Store ω ι) C} (h : z.applied? phase spec s = some a) :
    z.ended = false := by
  cases hz : z.ended with
  | false => rfl
  | true => rw [applied?_of_ended hz] at h; cases h

theorem addStep_of_none (h : z.applied? phase spec s = none) : (z.addStep phase spec s).2.1 = z := by
  unfold applied? at h
  unfold addStep
  split
  · rfl
  · rename_i hz
    rw [if_neg hz] at h
    split at h
    · rename_i e t hbind
      simp only [hbind]
      cases e <;> rfl
    · cases h

/-- A step that cannot be bound is answered with its error. The store alone is another one. -/
theorem addStep_of_refused {e : Halt ConfigError} {t : Store ω ι} (hz : z.ended = false)
    (h : spec.manager.bind ⟨z.name, phase, z.nextIndex.get phase, spec.label, none, none⟩ s = (.error e, t)) :
    (z.addStep phase spec s).2 = (z, t) ∧
      ∀ c, e = .error c → (z.addStep phase spec s).1 = .failed (.configuration c) := by
  have hopen : ¬z.ended = true := by rw [hz]; exact Bool.false_ne_true
  simp only [addStep, if_neg hopen, h]
  cases e with
  | error c => exact ⟨rfl, fun c' hc => by cases hc; rfl⟩
  | panicked text => exact ⟨rfl, fun c' hc => by cases hc⟩

theorem addStep_of_some {a : Applied (Store ω ι) C} (h : z.applied? phase spec s = some a) :
    ∃ d, (z.addStep phase spec s).2 = (z.behind phase spec d a, a.world) := by
  have hz : ¬z.ended = true := Bool.not_eq_true _ ▸ open_of_applied? h
  rw [applied?, if_neg hz] at h
  split at h
  · cases h
  · rename_i action t hbind
    refine ⟨Host.now a.world - Host.now t, ?_⟩
    obtain rfl := Option.some.inj h
    simp only [addStep, if_neg hz, hbind, behind, keep, begun]
    split
    · rename_i hout
      rw [hout]
    · rename_i hout
      rw [hout]
    · rename_i hout
      rw [hout]

end
end Session

/-! ### Sittings -/

structure Sitting (ω ι C : Type) where
  session : Session ω ι C
  store : Store ω ι
  /-- What the steps did since the session was started or reset, in order. -/
  visits : List (Applied (Store ω ι) C)

namespace Sitting
variable {ω ι C : Type} [Host ω] [LocalAction ω ι C]

omit [LocalAction ω ι C] in
/-- A new session. -/
def start (name : String) (shortCircuitOnException : Bool) (initial : C)
    (handler : Option (ErrorHandler C)) (s : Store ω ι) : Sitting ω ι C :=
  let (z, w) := Session.new name shortCircuitOnException initial handler s.world
  ⟨z, { s with world := w }, []⟩

def call (t : Sitting ω ι C) : Session.Call ω ι C → Sitting ω ι C
  | .add phase spec =>
    let (_, z, s) := t.session.addStep phase spec t.store
    ⟨z, s, t.visits ++ (t.session.applied? phase spec t.store).toList⟩
  | .reset initial =>
    let (z, w) := t.session.reset initial t.store.world
    ⟨z, { t.store with world := w }, []⟩
  | .clearRecorded => { t with session := t.session.clearRecorded }
  | .freeze => t

def run (t : Sitting ω ι C) (calls : List (Session.Call ω ι C)) : Sitting ω ι C := calls.foldl call t

variable {t : Sitting ω ι C}

theorem call_add_of_none {phase : Phase} {spec : StepSpec ω ι C}
    (h : t.session.applied? phase spec t.store = none) :
    t.call (.add phase spec) = ⟨t.session, (t.call (.add phase spec)).store, t.visits⟩ := by
  have hz := Session.addStep_of_none h
  simp only [call, h, hz, Option.toList_none, List.append_nil]

theorem call_add_of_some {phase : Phase} {spec : StepSpec ω ι C} {a : Applied (Store ω ι) C}
    (h : t.session.applied? phase spec t.store = some a) :
    ∃ d, t.call (.add phase spec) = ⟨t.session.behind phase spec d a, a.world, t.visits ++ [a]⟩ := by
  obtain ⟨d, hz⟩ := Session.addStep_of_some h
  refine ⟨d, ?_⟩
  simp only [call, h, hz, Option.toList_some]

@[simp] theorem run_nil : t.run [] = t := rfl

@[simp] theorem run_cons (c : Session.Call ω ι C) (cs : List (Session.Call ω ι C)) :
    t.run (c :: cs) = (t.call c).run cs := rfl

/-- What every call keeps holds after all of them. -/
theorem run_keeps {P : Sitting ω ι C → Prop} (hP : ∀ t c, P t → P (t.call c)) (h : P t)
    (calls : List (Session.Call ω ι C)) : P (t.run calls) := by
  induction calls generalizing t with
  | nil => exact h
  | cons c cs ih => exact ih (hP t c h)

end Sitting
end Pipeworks
