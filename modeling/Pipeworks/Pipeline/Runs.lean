import Pipeworks.Pipeline.Binding
import Pipeworks.Run.Effects
/-!
# Runs of pipelines

The turns of the run that a pipeline makes on a context. A pipeline that cannot be sealed makes none;
otherwise its run is one of its plan (`runs_of_sealPlan`).
-/

namespace Pipeworks
namespace Pipeline
variable {ω ι C : Type} [Host ω] [LocalAction ω ι C]

def turns (p : Pipeline ω ι C) (expectedOutput : Option (Marker C)) (input : C) (s : Store ω ι) :
    List (Turn ω ι C) :=
  match p.sealPlan s with
  | (.error _, _) => []
  | (.ok (plan, p), s) => (p.executor plan expectedOutput).trace p.startLabel input s

omit [Host ω] [LocalAction ω ι C] in
/-- A run that ends at a type may jump. -/
theorem executor_output (p : Pipeline ω ι C) (plan : Plan ω ι C) (m : Marker C) :
    p.executor plan (some m) =
      { Executor.addressed plan p.sink p.maxJumps p.sleeper with expectedOutput := some m } := by
  simp only [executor, Option.isSome_some, Bool.or_true, if_true]

variable {p q : Pipeline ω ι C} {plan : Plan ω ι C} {s s' : Store ω ι}

theorem runs_of_sealPlan (out : Option (Marker C)) (input : C)
    (h : p.sealPlan s = (.ok (plan, q), s')) :
    p.turns out input s = (q.executor plan out).trace q.startLabel input s' ∧
      (p.execute out input s).1 = ((q.executor plan out).execute q.startLabel input s').1 ∧
      (p.execute out input s).2.1 = { q with startLabel := none } := by
  simp only [turns, execute, h, and_self]

theorem execute_of_error {e : Halt ConfigError} (out : Option (Marker C)) (input : C)
    (h : p.sealPlan s = (.error e, s')) : (p.execute out input s).2 = (p, s') := by
  cases e <;> simp only [execute, h]

/-- A run leaves the pipeline as sealing left it, but for the start label. -/
theorem execute_pipeline (p : Pipeline ω ι C) (out : Option (Marker C)) (input : C) (s : Store ω ι) :
    (p.execute out input s).2.1 = p ∨
      ∃ plan q s', p.sealPlan s = (.ok (plan, q), s') ∧
        (p.execute out input s).2.1 = { q with startLabel := none } := by
  rcases h : p.sealPlan s with ⟨e | ⟨plan, q⟩, s'⟩
  · exact .inl (congrArg Prod.fst (execute_of_error out input h))
  · exact .inr ⟨plan, q, s', rfl, (runs_of_sealPlan out input h).2.2⟩

/-- What becomes of a pipeline that a run has sealed: its start label is used up, however the run ends. -/
theorem Coherent.behind_run (hc : p.Coherent) (hs : p.sealPlan s = (.ok (plan, q), s'))
    (out : Option (Marker C)) (input : C) :
    (p.execute out input s).2.1 = { p with plan := some plan, startLabel := none } ∧
      p.turns out input s = (p.executor plan out).trace p.startLabel input s' ∧
      (p.execute out input s).1 = ((p.executor plan out).execute p.startLabel input s').1 := by
  obtain ⟨hturns, hend, hpipe⟩ := runs_of_sealPlan out input hs
  obtain ⟨rfl, -⟩ := sealPlan_eq_ok hc hs
  exact ⟨hpipe, hturns, hend⟩

/-- The turns of a pipeline that seals account for its run. -/
theorem Coherent.account_turns (hc : p.Coherent) (hs : p.sealPlan s = (.ok (plan, q), s'))
    (out : Option (Marker C)) (input : C) :
    (p.executor plan out).Account p.startLabel input s' (p.turns out input s)
      ((p.execute out input s).1, (p.execute out input s).2.2) := by
  have hrun : ((p.execute out input s).1, (p.execute out input s).2.2) =
      (q.executor plan out).execute q.startLabel input s' := by
    simp only [execute, hs]
  rw [hrun, (runs_of_sealPlan out input hs).1]
  obtain ⟨rfl, -⟩ := sealPlan_eq_ok hc hs
  exact Executor.account_trace ..

theorem turns_of_error {e : Halt ConfigError} (out : Option (Marker C)) (input : C)
    (h : p.sealPlan s = (.error e, s')) : p.turns out input s = [] := by
  simp only [turns, h]

/-- A run takes no turn, or those of a course of the executor for the definition. -/
theorem Coherent.course_turns (hc : p.Coherent) (out : Option (Marker C)) (input : C) (s : Store ω ι) :
    p.turns out input s = [] ∨
      ∃ d cur, p.Defines d ∧ (p.executor (.ofDefinition d) out).Course cur (p.turns out input s) := by
  rcases hs : p.sealPlan s with ⟨e | ⟨plan, q⟩, s'⟩
  · exact .inl (turns_of_error out input hs)
  · obtain ⟨-, hturns, -⟩ := hc.behind_run hs out input
    obtain ⟨d, rfl, hd⟩ := hc.defines hs
    rw [hturns]
    rcases (p.executor (.ofDefinition d) out).startAt_cases p.startLabel input
        ((p.executor (.ofDefinition d) out).opening p.startLabel s').1 with ⟨n, hn⟩ | ⟨label, hn⟩
    · exact .inr ⟨d, _, hd, (Executor.course_trace hn).1⟩
    · exact .inl (Executor.trace_of_error hn).1

end Pipeline
end Pipeworks
