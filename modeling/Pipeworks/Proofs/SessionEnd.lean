import Mathlib.Data.List.DropRight
import Pipeworks.Bench
import Pipeworks.Pipeline.Calls

/-!
# The end of a session

`short_circuited_eq_ended_or_unheard`: a session that has ended is short-circuited and passes over
every further step until it is reset. The other direction fails. The flag of the control is set by the
step itself, while the session looks at the flag behind an answer only: behind a context, and behind a
failure if failures short-circuit. A step that sets the flag and then fails, asks for a jump or aborts
leaves a session that is short-circuited and goes on.
-/

namespace Pipeworks

/-- The session looks at its flag behind this outcome. -/
def Outcome.heard {C : Type} (shortCircuits : Bool) : Outcome C → Bool
  | .answered (.ok _) => true
  | .answered (.error (.failed _)) => shortCircuits
  | .answered (.error (.jump _)) => shortCircuits
  | .answered (.error (.abort _)) => false
  | .panicked _ | .blocked => false

namespace Session
variable {ω ι C : Type} {z : Session ω ι C} {a : Applied (Store ω ι) C}

theorem policy_behind (phase : Phase) (spec : StepSpec ω ι C) (d : Nanos) :
    (z.behind phase spec d a).shortCircuitOnException = z.shortCircuitOnException := by
  unfold behind
  split
  · unfold settle
    split
    · rfl
    · split
      · rfl
      · split <;> rfl
  · rfl
  · rfl

/-- Behind an outcome that it looks at, an open session has ended exactly if its flag is set. -/
theorem ended_behind_of_heard (hz : z.ended = false) (ha : a.outcome.heard z.shortCircuitOnException = true)
    (phase : Phase) (spec : StepSpec ω ι C) (d : Nanos) :
    (z.behind phase spec d a).ended = (z.behind phase spec d a).control.shortCircuited := by
  have hk : (z.keep phase spec a.marks).ended = false := hz
  have hp : (z.keep phase spec a.marks).shortCircuitOnException = z.shortCircuitOnException := rfl
  have failure (e : ActionError) (f : Fault) (hf : f.asActionError = .ok e)
      (hsc : z.shortCircuitOnException = true) :
      ((z.keep phase spec a.marks).settle d (.error f)).2.ended =
        ((z.keep phase spec a.marks).settle d (.error f)).2.control.shortCircuited := by
    simp only [settle, hf, hp, hsc, if_true, Control.shortCircuit]
  cases ho : a.outcome with
  | panicked t => rw [ho] at ha; cases ha
  | blocked => rw [ho] at ha; cases ha
  | answered answer =>
    rw [ho] at ha
    simp only [behind, ho]
    cases answer with
    | ok next =>
      simp only [settle, hk, Bool.false_or]
    | error f =>
      cases f with
      | failed e => exact failure e _ rfl ha
      | jump signal => exact failure _ _ rfl ha
      | abort e => cases ha

theorem flags_behind_of_not_heard (hz : z.ended = false)
    (ha : a.outcome.heard z.shortCircuitOnException = false) (phase : Phase) (spec : StepSpec ω ι C)
    (d : Nanos) :
    (z.behind phase spec d a).ended = false ∧
      (z.behind phase spec d a).control.shortCircuited =
        (z.control.shortCircuited || a.marks.shortCircuit) := by
  have hp : (z.keep phase spec a.marks).shortCircuitOnException = z.shortCircuitOnException := rfl
  have failure (e : ActionError) (f : Fault) (hf : f.asActionError = .ok e)
      (hsc : z.shortCircuitOnException = false) :
      ((z.keep phase spec a.marks).settle d (.error f)).2.ended = z.ended ∧
        ((z.keep phase spec a.marks).settle d (.error f)).2.control.shortCircuited =
          (z.control.shortCircuited || a.marks.shortCircuit) := by
    simp only [settle, hf, hp, hsc, Bool.false_eq_true, if_false]
    exact ⟨rfl, rfl⟩
  rw [← hz]
  cases ho : a.outcome with
  | panicked t =>
    simp only [behind, ho]
    exact ⟨rfl, rfl⟩
  | blocked =>
    simp only [behind, ho]
    exact ⟨rfl, rfl⟩
  | answered answer =>
    rw [ho] at ha
    simp only [behind, ho]
    cases answer with
    | ok next => cases ha
    | error f =>
      cases f with
      | failed e => exact failure e _ rfl ha
      | jump signal => exact failure _ _ rfl ha
      | abort e => exact ⟨rfl, rfl⟩

end Session

namespace Sitting
variable {ω ι C : Type} {t : Sitting ω ι C}

/-- The applications behind the last one that the session looked at its flag for. -/
def unheard (t : Sitting ω ι C) : List (Applied (Store ω ι) C) :=
  t.visits.rtakeWhile fun a => !a.outcome.heard t.session.shortCircuitOnException

/-- The flag of a session is set if it has ended, or by a step that was not heard. -/
structure Tracked (t : Sitting ω ι C) : Prop where
  flag : t.session.control.shortCircuited = (t.session.ended || t.unheard.any (·.marks.shortCircuit))
  heard : t.session.ended = true → t.unheard = []

variable [Host ω] [LocalAction ω ι C]

omit [LocalAction ω ι C] in
theorem tracked_start (name : String) (sc : Bool) (initial : C) (handler : Option (ErrorHandler C))
    (s : Store ω ι) : (start name sc initial handler s).Tracked := ⟨rfl, fun _ => rfl⟩

theorem Tracked.add (h : t.Tracked) (phase : Phase) (spec : StepSpec ω ι C) :
    (t.call (.add phase spec)).Tracked := by
  cases happ : t.session.applied? phase spec t.store with
  | none =>
    rw [call_add_of_none happ]
    exact ⟨h.flag, h.heard⟩
  | some a =>
    have hz := Session.open_of_applied? happ
    obtain ⟨d, hcall⟩ := call_add_of_some happ
    have hunheard : (t.call (.add phase spec)).unheard =
        if a.outcome.heard t.session.shortCircuitOnException then [] else t.unheard ++ [a] := by
      rw [hcall, unheard, Session.policy_behind, List.rtakeWhile_concat]
      cases a.outcome.heard t.session.shortCircuitOnException <;> rfl
    -- A step that is heard leaves none unheard; any other one is one more of them.
    cases ha : a.outcome.heard t.session.shortCircuitOnException with
    | true =>
      have hended := Session.ended_behind_of_heard hz ha phase spec d
      rw [ha, if_pos rfl] at hunheard
      refine ⟨?_, fun _ => hunheard⟩
      rw [hunheard, hcall, List.any_nil, Bool.or_false]
      exact hended.symm
    | false =>
      obtain ⟨hended, hflag⟩ := Session.flags_behind_of_not_heard hz ha phase spec d
      rw [ha, if_neg Bool.false_ne_true] at hunheard
      constructor
      · rw [hunheard, hcall]
        calc (t.session.behind phase spec d a).control.shortCircuited
            = (t.session.control.shortCircuited || a.marks.shortCircuit) := hflag
          _ = (t.unheard.any (·.marks.shortCircuit) || a.marks.shortCircuit) := by
            rw [h.flag, hz, Bool.false_or]
          _ = ((t.session.behind phase spec d a).ended ||
                (t.unheard ++ [a]).any (·.marks.shortCircuit)) := by
            rw [hended, Bool.false_or, List.any_append]
            simp
      · intro he
        rw [hcall] at he
        exact absurd (hended.symm.trans he) Bool.false_ne_true

theorem Tracked.call (h : t.Tracked) (c : Session.Call ω ι C) : (t.call c).Tracked := by
  cases c with
  | add phase spec => exact h.add phase spec
  | reset initial => exact ⟨rfl, fun _ => rfl⟩
  | clearRecorded => exact ⟨h.flag, h.heard⟩
  | freeze => exact h

theorem call_add_of_ended (h : t.session.ended = true) (phase : Phase) (spec : StepSpec ω ι C) :
    t.call (.add phase spec) = t := by
  simp only [Sitting.call, Session.addStep_of_ended h, Session.applied?_of_ended h,
    Option.toList_none, List.append_nil]

theorem run_of_ended {calls : List (Session.Call ω ι C)} (h : t.session.ended = true)
    (hc : ∀ c ∈ calls, ∀ initial, c ≠ .reset initial) :
    ∃ recorded next, t.run calls =
      { t with session := { t.session with recorded := recorded, nextIndex := next } } ∧
      (.clearRecorded ∉ calls → t.run calls = t) := by
  induction calls generalizing t with
  | nil => exact ⟨_, _, rfl, fun _ => rfl⟩
  | cons c cs ih =>
    have hcs : ∀ d ∈ cs, ∀ initial, d ≠ .reset initial := fun d hd => hc d (List.mem_cons_of_mem c hd)
    have same (hcall : t.call c = t) : ∃ recorded next, t.run (c :: cs) =
        { t with session := { t.session with recorded := recorded, nextIndex := next } } ∧
        (.clearRecorded ∉ c :: cs → t.run (c :: cs) = t) := by
      rw [run_cons, hcall]
      obtain ⟨recorded, next, hrun, hsame⟩ := ih h hcs
      exact ⟨recorded, next, hrun, fun hn => hsame fun hmem => hn (List.mem_cons_of_mem c hmem)⟩
    cases c with
    | add phase spec => exact same (call_add_of_ended h phase spec)
    | freeze => exact same rfl
    | reset initial => exact absurd rfl (hc _ List.mem_cons_self initial)
    | clearRecorded =>
      obtain ⟨recorded, next, hrun, -⟩ := ih (t := t.call .clearRecorded) h hcs
      exact ⟨recorded, next, hrun, fun hn => absurd List.mem_cons_self hn⟩

/-- After any calls, a session is short-circuited exactly if it has ended or one of the steps behind the
last one that was heard set the flag. A session that has ended has no such steps; its value, its logs and
its store stay until it is reset, and so does the recording unless it is cleared. -/
theorem short_circuited_eq_ended_or_unheard (name : String) (sc : Bool) (initial : C)
    (handler : Option (ErrorHandler C)) (s : Store ω ι) (calls : List (Session.Call ω ι C)) :
    let t := (start name sc initial handler s).run calls
    (t.session.result t.store.world).shortCircuited =
      (t.session.ended || t.unheard.any (·.marks.shortCircuit)) ∧
    (t.session.ended = true → t.unheard = [] ∧
      ∀ more : List (Session.Call ω ι C), (∀ c ∈ more, ∀ initial, c ≠ .reset initial) →
        ∃ recorded next, t.run more =
          { t with session := { t.session with recorded := recorded, nextIndex := next } } ∧
          (.clearRecorded ∉ more → t.run more = t)) := by
  intro t
  have h : t.Tracked := run_keeps (fun _ c h => h.call c) (tracked_start name sc initial handler s) calls
  exact ⟨h.flag, fun he => ⟨h.heard he, fun more hm => run_of_ended he hm⟩⟩

end Sitting

/-- A session whose failures are passed over. -/
def lenientSession : Sitting Bench Empty Nat := .start "lenient" false 7 none (.ofWorld (.new 1))

namespace lenientSession

/-- Sets the flag and fails. -/
def haltAndFail : Session.Call Bench Empty Nat :=
  .add .main (.shared (.controlled fun _ _ w => ⟨.fault (.failed (.new "boom")), ⟨[], true⟩, w⟩))

def increment : Session.Call Bench Empty Nat := .add .main (.shared (.map (· + 1)))

end lenientSession

/-- A session can be short-circuited and not have ended; it applies the next step. -/
theorem short_circuited_session_goes_on :
    let t := lenientSession.run [lenientSession.haltAndFail]
    (t.session.result t.store.world).shortCircuited = true ∧ t.session.ended = false ∧
      (t.call lenientSession.increment).session.value = 8 := ⟨rfl, rfl, rfl⟩

end Pipeworks
