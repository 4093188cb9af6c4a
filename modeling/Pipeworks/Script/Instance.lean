import Pipeworks.Script.Action
import Pipeworks.Testing.Probe
/-!
# Instances for tests

An instance is a script with a count of its uses, or a probe. The factory of a script may refuse, its
resets may fail, and all of them are counted in one record.
-/

namespace Pipeworks

structure InstanceStats where
  /-- Calls of the factory. -/
  builds : Nat
  created : Nat
  resets : Nat
  applies : Nat

instance : Inhabited InstanceStats := ⟨⟨0, 0, 0, 0⟩⟩

/-- What all instances of a script have in common. -/
structure ScriptedAction (ω : Type) where
  typeName : String
  style : InvokeStyle
  script : Script
  /-- What becomes of each reset; nothing if there is no reset. -/
  resets : Option (List ResetOutcome)
  /-- The refusals of the factory, call by call. -/
  builds : List (Option ActionError)
  stats : Cell ω InstanceStats

inductive Instance (ω : Type) where
  | scripted (action : ScriptedAction ω) (id uses : Nat)
  | probe (p : Probe ω)

namespace ScriptedAction
variable {ω : Type}

/-- Makes the next instance. -/
def factory (a : ScriptedAction ω) : LocalFactory ω (Instance ω) := fun w =>
  let s := a.stats.get w
  let counted := { s with builds := s.builds + 1 }
  match (Script.turn? a.builds s.builds).join with
  | some e => (.refused e, a.stats.set counted w)
  | none =>
    let id := s.created + 1
    (.made (.scripted a id 0), a.stats.set { counted with created := id } w)

end ScriptedAction

namespace Instance
variable {ω : Type}

def probeFactory (stats : Cell ω ProbeStats) : LocalFactory ω (Instance ω) := fun w =>
  let (p, w) := Probe.new stats w
  (.made (.probe p), w)

def apply (i : Instance ω) (ctx : String) (control : Control String) (w : ω) :
    Applied ω String × Instance ω :=
  match i with
  | scripted a id uses =>
    let s := a.stats.get w
    let (outcome, marks, uses) := a.script.start ⟨s.applies, id, control⟩ ctx uses
    (⟨outcome, marks, a.stats.set { s with applies := s.applies + 1 } w⟩, scripted a id uses)
  | probe p =>
    let (outcome, p, w) := p.apply ctx w
    (⟨outcome, .none, w⟩, probe p)

/-- Resets an instance. A script that has no reset goes on as it is, and nothing is counted. -/
def reset (i : Instance ω) (w : ω) : ResetOutcome × Instance ω × ω :=
  match i with
  | scripted a id uses =>
    match a.resets with
    | none => (.done, scripted a id uses, w)
    | some outcomes =>
      let s := a.stats.get w
      let w := a.stats.set { s with resets := s.resets + 1 } w
      match (Script.turn? outcomes s.resets).getD .done with
      | .done => (.done, scripted a id 0, w)
      | r => (r, scripted a id uses, w)
  | probe p =>
    let (p, w) := p.reset w
    (.done, probe p, w)

instance : LocalAction ω (Instance ω) String where
  contextType := "text"
  apply := apply
  reset := reset
  supportsReset
    | scripted a _ _ => a.resets.isSome
    | probe _ => true
  typeName
    | scripted a _ _ => a.typeName
    | probe _ => Probe.typeName
  style
    | scripted a _ _ => a.style
    | probe _ => .controlled

end Instance
end Pipeworks
