import Pipeworks.Control
import Pipeworks.Fault
/-!
# Actions

An action reads a context and answers with the next one or with a fault. It sees the control of the
run and may leave marks on it, and it may change the world it lives in; both stay whatever the answer
is.
-/

namespace Pipeworks

/-- What an action looks at: the context alone, or the control of the run as well. -/
inductive InvokeStyle where
  | unary
  | controlled
  deriving DecidableEq

def InvokeStyle.name : InvokeStyle → String
  | unary => "unary"
  | controlled => "controlled"

/-- What an application answers: the next context, or a fault. -/
abbrev Answer (C : Type) := Except Fault C

/-- What becomes of one application. An action that is `blocked` waits for something outside the
run and has not answered yet. -/
inductive Outcome (C : Type) where
  | answered (a : Answer C)
  | panicked (text : String)
  | blocked

/-- An outcome together with the marks on the control and the world that are left behind. -/
structure Applied (ω C : Type) where
  outcome : Outcome C
  marks : Control.Marks
  world : ω

structure Action (ω C : Type) where
  style : InvokeStyle
  apply : C → Control C → ω → Applied ω C

namespace Outcome
variable {C : Type}

def next (ctx : C) : Outcome C := answered (.ok ctx)

def fault (f : Fault) : Outcome C := answered (.error f)

/-- What holds of contexts, of each kind of fault and of calls that do not come back holds of all outcomes. -/
@[elab_as_elim]
theorem byFault {motive : Outcome C → Prop} (next : ∀ v, motive (.answered (.ok v)))
    (failed : ∀ e, motive (.answered (.error (.failed e))))
    (jump : ∀ signal, motive (.answered (.error (.jump signal))))
    (abort : ∀ e, motive (.answered (.error (.abort e)))) (panicked : ∀ t, motive (.panicked t))
    (blocked : motive .blocked) (o : Outcome C) : motive o := by
  rcases o with (f | v) | t | _
  · cases f with
    | failed e => exact failed e
    | jump signal => exact jump signal
    | abort e => exact abort e
  · exact next v
  · exact panicked t
  · exact blocked

end Outcome

namespace Action
variable {ω C : Type}

/-- An action on the context and the world that does not see the control. -/
def unary (f : C → ω → Outcome C × ω) : Action ω C :=
  ⟨.unary, fun ctx _ w => let (o, w) := f ctx w; ⟨o, .none, w⟩⟩

def controlled (f : C → Control C → ω → Applied ω C) : Action ω C := ⟨.controlled, f⟩

/-- A function that may answer with a fault. -/
def pure (f : C → Answer C) : Action ω C := unary fun ctx w => (.answered (f ctx), w)

/-- A function that always answers. -/
def map (f : C → C) : Action ω C := unary fun ctx w => (.next (f ctx), w)

/-- A function whose failures are chains of causes, the outermost first. -/
def fallible (f : C → Except (List String) C) : Action ω C :=
  unary fun ctx w =>
    match f ctx with
    | .ok next => (.next next, w)
    | .error chain => (.fault (.failed (.ofChain chain)), w)

end Action
end Pipeworks
