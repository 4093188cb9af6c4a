import Mathlib.Data.List.Induction
import Pipeworks.Naming
import Pipeworks.Pipeline.Calls
import Pipeworks.Pipeline.Labels
/-!
# Chronicles of sessions

The calls of a session with the names it gave. A `Chronicle` is a sitting with the steps that were bound since
its recording was cleared last, each under the name that the session gave it, and with its control as the
clearing left it; nothing reads these but statements about sessions. They are what the session has recorded,
each name the one of its place (`Kept`), after all calls (`kept_run`).
-/

namespace Pipeworks

/-! ### What a step leaves in the logs -/

namespace Control
variable {C : Type} {c c' c'' : Control C} {names names' : List String}

/-- The logs of a control have come of those of another: timings were added under some of these names, in this
order, and errors under any of them. -/
structure Logged (names : List String) (c c' : Control C) : Prop where
  timings : ∃ fresh, c'.timings.toList = c.timings.toList ++ fresh ∧
    (fresh.map (·.name)).Sublist names
  errors : ∃ fresh, c'.errors.toList = c.errors.toList ++ fresh ∧ ∀ e ∈ fresh, e.step ∈ names

namespace Logged

theorem of_same (names : List String) (ht : c'.timings = c.timings) (he : c'.errors = c.errors) :
    Logged names c c' :=
  ⟨⟨[], by rw [ht, List.append_nil], List.nil_sublist _⟩,
    ⟨[], by rw [he, List.append_nil], fun _ h => by cases h⟩⟩

theorem trans (h : Logged names c c') (h' : Logged names' c' c'') : Logged (names ++ names') c c'' := by
  obtain ⟨⟨t, ht, hsub⟩, e, he, hin⟩ := h
  obtain ⟨⟨t', ht', hsub'⟩, e', he', hin'⟩ := h'
  refine ⟨⟨t ++ t', by rw [ht', ht, List.append_assoc], ?_⟩, e ++ e', by rw [he', he, List.append_assoc],
    fun x hx => ?_⟩
  · rw [List.map_append]
    exact hsub.append hsub'
  · rcases List.mem_append.1 hx with hx | hx
    · exact List.mem_append_left _ (hin x hx)
    · exact List.mem_append_right _ (hin' x hx)

theorem recordTiming (c : Control C) (d : Nanos) (success : Bool) :
    Logged [c.step] c (c.recordTiming d success) :=
  ⟨⟨_, Trail.toList_push _ _, List.Sublist.refl _⟩, ⟨[], (List.append_nil _).symm, fun _ h => by cases h⟩⟩

theorem absorb (h : Logged names c c') (hstep : c'.step ∈ names) (m : Marks) :
    Logged names c (c'.absorb m) := by
  obtain ⟨ht, e, he, hin⟩ := h
  refine ⟨ht, e ++ m.recorded.map c'.errorHere, ?_, fun x hx => ?_⟩
  · rw [Control.absorb, Trail.toList_pushAll, he, List.append_assoc]
  · rcases List.mem_append.1 hx with hx | hx
    · exact hin x hx
    · obtain ⟨cause, -, rfl⟩ := List.mem_map.1 hx
      exact hstep

end Logged
end Control

namespace Session
variable {ω ι C : Type}

/-- Behind an application the control stands at the step, and what it has logged goes by the step's name. -/
theorem control_behind (z : Session ω ι C) (phase : Phase) (spec : StepSpec ω ι C) (d : Nanos)
    (a : Applied (Store ω ι) C) :
    (z.behind phase spec d a).control.step = phase.stepName (z.nextIndex.get phase) spec.label ∧
      z.control.Logged [phase.stepName (z.nextIndex.get phase) spec.label]
        (z.behind phase spec d a).control := by
  let b := z.begun phase spec.label
  have begun (names : List String) : z.control.Logged names b := .of_same _ rfl rfl
  -- It makes no difference to the logs whether the timing comes before the marks.
  have timed (success : Bool) : z.control.Logged [b.step] ((b.absorb a.marks).recordTiming d success) :=
    ((begun []).trans (.recordTiming b d success)).absorb List.mem_cons_self a.marks
  unfold behind
  split
  · unfold settle
    split
    · exact ⟨rfl, timed true⟩
    · split
      · exact ⟨rfl, timed false⟩
      · rename_i e _
        have failed : z.control.Logged [b.step]
            (((b.absorb a.marks).recordTiming d false).recordError z.value e).2 := by
          rw [Control.absorb_recorded]
          exact (timed false).absorb List.mem_cons_self _
        split
        · exact ⟨rfl, failed.trans (.of_same [] rfl rfl)⟩
        · exact ⟨rfl, failed⟩
  · exact ⟨rfl, (begun [b.step]).absorb List.mem_cons_self a.marks⟩
  · exact ⟨rfl, (begun [b.step]).absorb List.mem_cons_self a.marks⟩

end Session

/-! ### Chronicles -/

/-- A step that was bound, with the name under which it was begun. -/
structure Given (ω ι C : Type) where
  phase : Phase
  spec : StepSpec ω ι C
  name : String

namespace Given
variable {ω ι C : Type}

/-- The steps of a phase. -/
def inPhase (l : List (Given ω ι C)) (phase : Phase) : List (Given ω ι C) := l.filter (·.phase = phase)

theorem inPhase_concat (l : List (Given ω ι C)) (g : Given ω ι C) (phase : Phase) :
    inPhase (l ++ [g]) phase = if g.phase = phase then inPhase l phase ++ [g] else inPhase l phase := by
  by_cases h : g.phase = phase
  · simp [inPhase, h]
  · simp [inPhase, h]

theorem mem_inPhase {l : List (Given ω ι C)} {g : Given ω ι C} (h : g ∈ l) : g ∈ inPhase l g.phase :=
  List.mem_filter.2 ⟨h, decide_eq_true rfl⟩

/-- Taken phase by phase, the steps are the same. -/
theorem flat_inPhase_perm (l : List (Given ω ι C)) :
    (ByPhase.flat ⟨inPhase l .pre, inPhase l .main, inPhase l .post⟩).Perm l := by
  induction l using List.reverseRecOn with
  | nil => exact .nil
  | append_singleton l g ih =>
    have hpush : (⟨inPhase (l ++ [g]) .pre, inPhase (l ++ [g]) .main, inPhase (l ++ [g]) .post⟩ : ByPhase _) =
        ByPhase.push ⟨inPhase l .pre, inPhase l .main, inPhase l .post⟩ g.phase g := by
      simp only [inPhase_concat]
      cases g.phase <;> rfl
    rw [hpush]
    exact ((ByPhase.flat_push_perm _ _ _).trans (ih.cons g)).trans (List.perm_append_singleton g l).symm

end Given

structure Chronicle (ω ι C : Type) where
  sitting : Sitting ω ι C
  /-- The steps that were bound since the recording was cleared, in order. -/
  given : List (Given ω ι C)
  /-- The control as the session was started or reset with, or as it was when the recording was cleared behind
  that. -/
  stale : Control C
  /-- The recording was cleared since the session was started or reset. -/
  cleared : Bool

namespace Chronicle
variable {ω ι C : Type} [Host ω] [LocalAction ω ι C]

omit [LocalAction ω ι C] in
/-- A new session. -/
def start (name : String) (shortCircuitOnException : Bool) (initial : C)
    (handler : Option (ErrorHandler C)) (s : Store ω ι) : Chronicle ω ι C :=
  let t := Sitting.start name shortCircuitOnException initial handler s
  ⟨t, [], t.session.control, false⟩

def call (k : Chronicle ω ι C) (c : Session.Call ω ι C) : Chronicle ω ι C :=
  let t := k.sitting.call c
  match c with
  | .add phase spec =>
    match k.sitting.session.applied? phase spec k.sitting.store with
    | none => { k with sitting := t }
    -- The name is read off the control, which the step was begun with.
    | some _ => { k with sitting := t, given := k.given ++ [⟨phase, spec, t.session.control.step⟩] }
  | .reset _ => { k with sitting := t, stale := t.session.control, cleared := false }
  | .clearRecorded => { sitting := t, given := [], stale := t.session.control, cleared := true }
  | .freeze => { k with sitting := t }

def run (k : Chronicle ω ι C) (calls : List (Session.Call ω ι C)) : Chronicle ω ι C := calls.foldl call k

variable {k : Chronicle ω ι C}

/-- What every call keeps holds after all of them. -/
theorem run_keeps {P : Chronicle ω ι C → Prop} (hP : ∀ k c, P k → P (k.call c)) (h : P k)
    (calls : List (Session.Call ω ι C)) : P (k.run calls) := by
  induction calls generalizing k with
  | nil => exact h
  | cons c cs ih => exact ih (hP k c h)

theorem sitting_call (k : Chronicle ω ι C) (c : Session.Call ω ι C) :
    (k.call c).sitting = k.sitting.call c := by
  unfold call
  cases c with
  | add phase spec => dsimp only; split <;> rfl
  | reset initial | clearRecorded | freeze => rfl

theorem sitting_run (k : Chronicle ω ι C) (calls : List (Session.Call ω ι C)) :
    (k.run calls).sitting = k.sitting.run calls := by
  induction calls generalizing k with
  | nil => rfl
  | cons c cs ih => exact (ih (k.call c)).trans (congrArg (Sitting.run · cs) (sitting_call k c))

/-- The session is as the chronicle says. -/
structure Kept (k : Chronicle ω ι C) : Prop where
  recorded : ∀ phase, k.sitting.session.recorded.get phase = (Given.inPhase k.given phase).map (·.spec)
  nextIndex : ∀ phase, k.sitting.session.nextIndex.get phase = (Given.inPhase k.given phase).length
  names : ∀ phase, (Given.inPhase k.given phase).map (·.name) =
    (Given.inPhase k.given phase).mapIdx fun i g => phase.stepName i g.spec.label
  distinct : (k.given.map (·.name)).Nodup
  logged : k.stale.Logged (k.given.map (·.name)) k.sitting.session.control
  unlogged : k.cleared = false → k.stale.timings = ∅ ∧ k.stale.errors = ∅

omit [LocalAction ω ι C] in
theorem kept_start (name : String) (sc : Bool) (initial : C) (handler : Option (ErrorHandler C))
    (s : Store ω ι) : (start name sc initial handler s).Kept where
  recorded phase := by cases phase <;> rfl
  nextIndex phase := by cases phase <;> rfl
  names _ := rfl
  distinct := .nil
  logged := .of_same _ rfl rfl
  unlogged _ := ⟨rfl, rfl⟩

omit [Host ω] [LocalAction ω ι C] in
/-- The next index of a phase gives a name that is new. -/
theorem Kept.new_name (h : k.Kept) (phase : Phase) (label : Option String) :
    phase.stepName (k.sitting.session.nextIndex.get phase) label ∉ k.given.map (·.name) := by
  intro hmem
  obtain ⟨g, hg, hname⟩ := List.mem_map.1 hmem
  have hplace : g.name ∈ (Given.inPhase k.given g.phase).map (·.name) :=
    List.mem_map_of_mem (Given.mem_inPhase hg)
  rw [h.names, hname, List.mem_mapIdx] at hplace
  obtain ⟨i, hi, heq⟩ := hplace
  obtain ⟨hphase, hindex, -⟩ := Phase.stepName_inj heq
  rw [hphase] at hi
  rw [hindex, h.nextIndex] at hi
  exact Nat.lt_irrefl _ hi

/-- A step that is bound is recorded, under the name of its place. -/
theorem Kept.add_some (h : k.Kept) {phase : Phase} {spec : StepSpec ω ι C} {a : Applied (Store ω ι) C}
    (ha : k.sitting.session.applied? phase spec k.sitting.store = some a) :
    (k.call (.add phase spec)).Kept := by
  let name := phase.stepName (k.sitting.session.nextIndex.get phase) spec.label
  let g : Given ω ι C := ⟨phase, spec, name⟩
  obtain ⟨d, hadd⟩ := Sitting.call_add_of_some ha
  obtain ⟨hname, hlogged⟩ := k.sitting.session.control_behind phase spec d a
  obtain ⟨v, e, c, hbehind⟩ := k.sitting.session.behind_eq phase spec d a
  have hcall : k.call (.add phase spec) =
      { k with sitting := ⟨k.sitting.session.behind phase spec d a, a.world, k.sitting.visits ++ [a]⟩
               given := k.given ++ [g] } := by
    simp only [call, ha, hadd, hname, g, name]
  rw [hcall]
  have hmap : (k.given ++ [g]).map (·.name) = k.given.map (·.name) ++ [name] :=
    List.map_append
  refine ⟨fun q => ?_, fun q => ?_, fun q => ?_, ?_, ?_, h.unlogged⟩
  · have hrecorded : (k.sitting.session.behind phase spec d a).recorded =
        k.sitting.session.recorded.push phase spec := congrArg (·.recorded) hbehind
    show (k.sitting.session.behind phase spec d a).recorded.get q = _
    rw [hrecorded, ByPhase.get_push, h.recorded, Given.inPhase_concat]
    split
    · rw [List.map_append]
      rfl
    · rfl
  · have hnext : (k.sitting.session.behind phase spec d a).nextIndex =
        k.sitting.session.nextIndex.modify (· + 1) phase := congrArg (·.nextIndex) hbehind
    show (k.sitting.session.behind phase spec d a).nextIndex.get q = _
    rw [hnext, Given.inPhase_concat]
    split
    · rename_i hq
      rw [← hq, ByPhase.get_modify, h.nextIndex, List.length_append, List.length_singleton]
    · rename_i hq
      rw [ByPhase.get_modify_ne _ _ (Ne.symm hq), h.nextIndex]
  · rw [Given.inPhase_concat]
    split
    · rename_i hq
      obtain rfl : phase = q := hq
      have hg : g.name = phase.stepName (Given.inPhase k.given phase).length g.spec.label := by
        rw [← h.nextIndex]
      rw [List.map_append, List.mapIdx_append, h.names, List.map_singleton, hg]
      simp
    · exact h.names q
  · rw [hmap, ← List.concat_eq_append]
    exact h.distinct.concat (h.new_name phase spec.label)
  · rw [hmap]
    exact h.logged.trans hlogged

theorem Kept.call (h : k.Kept) (c : Session.Call ω ι C) : (k.call c).Kept := by
  cases c with
  | add phase spec =>
    cases ha : k.sitting.session.applied? phase spec k.sitting.store with
    | some a => exact h.add_some ha
    | none =>
      have hcall : k.call (.add phase spec) =
          { k with sitting := { k.sitting with store := (k.sitting.call (.add phase spec)).store } } := by
        simp only [Chronicle.call, ha]
        rw [Sitting.call_add_of_none ha]
      rw [hcall]
      exact ⟨h.recorded, h.nextIndex, h.names, h.distinct, h.logged, h.unlogged⟩
  | freeze => exact h
  | reset initial =>
    exact ⟨h.recorded, h.nextIndex, h.names, h.distinct, .of_same _ rfl rfl, fun _ => ⟨rfl, rfl⟩⟩
  | clearRecorded =>
    refine ⟨fun phase => ?_, fun phase => ?_, fun _ => rfl, .nil, .of_same _ rfl rfl, fun h => by cases h⟩
    · cases phase <;> rfl
    · cases phase <;> rfl

theorem kept_run (name : String) (sc : Bool) (initial : C) (handler : Option (ErrorHandler C))
    (s : Store ω ι) (calls : List (Session.Call ω ι C)) :
    ((start name sc initial handler s).run calls).Kept :=
  run_keeps (fun _ c h => h.call c) (kept_start name sc initial handler s) calls

end Chronicle
end Pipeworks
