import Pipeworks.Bench
import Pipeworks.Pipeline.Chronicle

/-!
# Names in the logs of a session

`names_distinct_until_cleared`: until its recording is cleared, a session gives no name twice, whatever resets
lie between. Clearing the recording starts the indices over but leaves the logs, so that a name can come back
in them. What was logged behind the clearing still goes by names of its own; the logs as a whole do so as long
as nothing was cleared behind the last reset.
-/

namespace Pipeworks
namespace Chronicle
variable {ω ι C : Type} [Host ω] [LocalAction ω ι C] {k : Chronicle ω ι C}

omit [Host ω] [LocalAction ω ι C] in
theorem Kept.existsUnique_given (h : k.Kept) {name : String} (hname : name ∈ k.given.map (·.name)) :
    ∃! g, g ∈ k.given ∧ g.name = name := by
  obtain ⟨g, hg, rfl⟩ := List.mem_map.1 hname
  exact ⟨g, ⟨hg, rfl⟩, fun g' ⟨hg', heq⟩ => List.inj_on_of_nodup_map h.distinct hg' hg heq⟩

/-- After any calls, the steps that were bound since the recording was cleared have names of their own. The logs
have what they had at the clearing, or nothing if the session was reset behind it; what came to them since goes
by these names, each timing by another one, and each error by that of one step. So a session whose recording was
not cleared since it was started or reset has no two timings of one name, and every error it logged tells one
step that was applied. -/
theorem names_distinct_until_cleared (name : String) (sc : Bool) (initial : C)
    (handler : Option (ErrorHandler C)) (s : Store ω ι) (calls : List (Session.Call ω ι C)) :
    let k := (start name sc initial handler s).run calls
    let r := k.sitting.session.result k.sitting.store.world
    k.sitting = (Sitting.start name sc initial handler s).run calls ∧
    (k.given.map (·.name)).Nodup ∧
    (∃ timings errors, r.timings = k.stale.timings.toList ++ timings ∧
      r.errors = k.stale.errors.toList ++ errors ∧
      (timings.map (·.name)).Sublist (k.given.map (·.name)) ∧
      ∀ e ∈ errors, ∃! g, g ∈ k.given ∧ g.name = e.step) ∧
    (k.cleared = false → (r.timings.map (·.name)).Nodup ∧
      ∀ e ∈ r.errors, ∃! g, g ∈ k.given ∧ g.name = e.step) := by
  intro k r
  have h : k.Kept := kept_run name sc initial handler s calls
  obtain ⟨⟨timings, htimings, hsub⟩, errors, herrors, hnames⟩ := h.logged
  have hr : r.timings = k.stale.timings.toList ++ timings ∧ r.errors = k.stale.errors.toList ++ errors :=
    ⟨htimings, herrors⟩
  have hone : ∀ e ∈ errors, ∃! g, g ∈ k.given ∧ g.name = e.step :=
    fun e he => h.existsUnique_given (hnames e he)
  refine ⟨sitting_run _ calls, h.distinct, ⟨timings, errors, hr.1, hr.2, hsub, hone⟩, fun hc => ?_⟩
  obtain ⟨ht, he⟩ := h.unlogged hc
  rw [hr.1, hr.2, ht, he, Trail.toList_empty, Trail.toList_empty, List.nil_append, List.nil_append]
  exact ⟨h.distinct.sublist hsub, hone⟩

end Chronicle

namespace forgetful

/-- A step that fails. -/
def fail (message : String) : Session.Call Bench Empty Nat :=
  .add .main (.shared (.pure fun _ => .error (.failed (.new message))))

/-- A session that goes on after failures, and whose recording is cleared between two of them. -/
def sitting : Sitting Bench Empty Nat :=
  (Sitting.start "forgetful" false 7 none (.ofWorld (.new 1))).run [fail "first", .clearRecorded, fail "second"]

def result : RunResult Nat := sitting.session.result sitting.store.world

end forgetful

open forgetful in
/-- Both failures are in the logs of one session, under one name. -/
theorem cleared_session_repeats_names :
    ¬(result.timings.map (·.name)).Nodup ∧
      result.errors.map (·.step) = [Phase.main.stepName 0 none, Phase.main.stepName 0 none] ∧
      result.errors.map (·.cause) = [.new "first", .new "second"] := by
  have hnames : result.timings.map (·.name) = [Phase.main.stepName 0 none, Phase.main.stepName 0 none] := rfl
  refine ⟨?_, rfl, rfl⟩
  rw [hnames]
  simp

end Pipeworks
