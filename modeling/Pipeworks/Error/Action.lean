/-!
# Failures of actions

A failure of an action may carry further failures that were met while it was dealt with.
-/

namespace Pipeworks

inductive ActionError where
  | mk (message : String) (suppressed : List ActionError)

namespace ActionError

def message : ActionError → String
  | mk m _ => m

def suppressed : ActionError → List ActionError
  | mk _ s => s

def new (message : String) : ActionError := mk message []

instance : Inhabited ActionError := ⟨new ""⟩

/-- Attaches a failure after those already attached. -/
def suppress : ActionError → ActionError → ActionError
  | mk m s, e => mk m (s ++ [e])

mutual

/-- The message, then every attached failure in parentheses. -/
def display : ActionError → String
  | mk m s => m ++ displaySuppressed s

def displaySuppressed : List ActionError → String
  | [] => ""
  | e :: es => " (suppressed: " ++ display e ++ ")" ++ displaySuppressed es

end

/-- The failure made of a chain of causes, the outermost first. -/
def ofChain (chain : List String) : ActionError := new (": ".intercalate chain)

mutual

def decEq : (a b : ActionError) → Decidable (a = b)
  | mk m s, mk n t =>
    if hm : m = n then
      match decEqList s t with
      | .isTrue hs => .isTrue (hm ▸ hs ▸ rfl)
      | .isFalse hs => .isFalse (fun h => hs (mk.inj h).2)
    else .isFalse (fun h => hm (mk.inj h).1)

def decEqList : (a b : List ActionError) → Decidable (a = b)
  | [], [] => .isTrue rfl
  | [], _ :: _ => .isFalse nofun
  | _ :: _, [] => .isFalse nofun
  | a :: as, b :: bs =>
    match decEq a b with
    | .isTrue h =>
      match decEqList as bs with
      | .isTrue hs => .isTrue (h ▸ hs ▸ rfl)
      | .isFalse hs => .isFalse (fun h => hs (List.cons.inj h).2)
    | .isFalse h => .isFalse (fun e => h (List.cons.inj e).1)

end

instance : DecidableEq ActionError := decEq

@[simp] theorem message_suppress (e f : ActionError) : (e.suppress f).message = e.message := by
  cases e; rfl

@[simp] theorem suppressed_suppress (e f : ActionError) :
    (e.suppress f).suppressed = e.suppressed ++ [f] := by
  cases e; rfl

end ActionError
end Pipeworks
