import Pipeworks.Pipeline.Definition
/-!
# Plans

A plan numbers the steps of a definition through: pre, main and post one after another. A position
up to the first boundary lies in pre, one from the second on in post. Labels name positions.
-/

namespace Pipeworks

structure Plan (ω ι C : Type) where
  definition : Definition ω ι C
  /-- The labels of the steps with their positions. -/
  labels : List (String × Nat)

namespace Plan
variable {ω ι C : Type}

/-- The labels of a listing of steps that starts at a position. -/
def labelsFrom (position : Nat) : List (BoundStep ω ι C) → List (String × Nat)
  | [] => []
  | s :: rest => s.label.toList.map (·, position) ++ labelsFrom (position + 1) rest

def ofDefinition (d : Definition ω ι C) : Plan ω ι C :=
  ⟨d, labelsFrom 0 d.steps.flat⟩

/-- The first position after pre. -/
def preBoundary (p : Plan ω ι C) : Nat := p.definition.steps.pre.length

/-- The first position of post. -/
def postBoundary (p : Plan ω ι C) : Nat := p.preBoundary + p.definition.steps.main.length

def size (p : Plan ω ι C) : Nat := p.definition.size

def name (p : Plan ω ι C) : String := p.definition.name

def policy (p : Plan ω ι C) : ErrorPolicy := p.definition.policy

def step? (p : Plan ω ι C) (position : Nat) : Option (BoundStep ω ι C) :=
  if position < p.preBoundary then p.definition.steps.pre[position]?
  else if position < p.postBoundary then p.definition.steps.main[position - p.preBoundary]?
  else p.definition.steps.post[position - p.postBoundary]?

def indexOf? (p : Plan ω ι C) (label : String) : Option Nat := p.labels.lookup label

/-- The position to go on with for a position reached: once the run is short-circuited, what is left
of main is passed over. -/
def advance (p : Plan ω ι C) (shortCircuited : Bool) (position : Nat) : Nat :=
  if shortCircuited ∧ p.preBoundary ≤ position ∧ position < p.postBoundary then p.postBoundary
  else position

/-- The phase that a position lies in. -/
def phaseAt (p : Plan ω ι C) (position : Nat) : Phase :=
  if position < p.preBoundary then .pre else if position < p.postBoundary then .main else .post

/-- The first position after the phase that a position lies in. -/
def phaseEnd (p : Plan ω ι C) (position : Nat) : Nat :=
  match p.phaseAt position with
  | .pre => p.preBoundary
  | .main => p.postBoundary
  | .post => p.size

theorem size_eq (p : Plan ω ι C) : p.size = p.postBoundary + p.definition.steps.post.length := rfl

theorem preBoundary_le (p : Plan ω ι C) : p.preBoundary ≤ p.postBoundary := Nat.le_add_right ..

theorem postBoundary_le (p : Plan ω ι C) : p.postBoundary ≤ p.size := Nat.le_add_right ..

theorem le_advance (p : Plan ω ι C) (b : Bool) (n : Nat) : n ≤ p.advance b n := by
  unfold advance; split <;> omega

theorem lt_phaseEnd (p : Plan ω ι C) {n : Nat} (h : n < p.size) : n < p.phaseEnd n := by
  by_cases h₁ : n < p.preBoundary
  · simp [phaseEnd, phaseAt, h₁]
  · by_cases h₂ : n < p.postBoundary
    · simp [phaseEnd, phaseAt, h₁, h₂]
    · simpa [phaseEnd, phaseAt, h₁, h₂]

/-- There is a step at every position below the size, and at no other. -/
theorem step?_eq_none_iff (p : Plan ω ι C) (n : Nat) : p.step? n = none ↔ p.size ≤ n := by
  have := p.preBoundary_le
  have := p.postBoundary_le
  have hsize := p.size_eq
  have hpost : p.postBoundary = p.preBoundary + p.definition.steps.main.length := rfl
  unfold step?
  split
  · have : p.preBoundary = p.definition.steps.pre.length := rfl
    rw [List.getElem?_eq_none_iff]; omega
  · split <;> rw [List.getElem?_eq_none_iff] <;> omega

theorem lt_size_of_step? (p : Plan ω ι C) {n : Nat} {s : BoundStep ω ι C} (h : p.step? n = some s) :
    n < p.size :=
  Nat.lt_of_not_le fun hn => by simp [(p.step?_eq_none_iff n).2 hn] at h

/-- Positions count the steps of all phases through. -/
theorem step?_eq (p : Plan ω ι C) (n : Nat) : p.step? n = p.definition.steps.flat[n]? := by
  have hpre : p.preBoundary = p.definition.steps.pre.length := rfl
  have hpost : p.postBoundary = p.preBoundary + p.definition.steps.main.length := rfl
  rw [step?, ByPhase.flat, List.append_assoc, List.getElem?_append, ← hpre]
  split
  · rfl
  · rw [List.getElem?_append]
    split
    · rw [if_pos (by omega)]
    · rw [if_neg (by omega), hpost, ← Nat.sub_sub]

theorem mem_of_step? (p : Plan ω ι C) {n : Nat} {s : BoundStep ω ι C} (h : p.step? n = some s) :
    s ∈ p.definition.steps.flat :=
  List.mem_of_getElem? ((p.step?_eq n).symm.trans h)

/-- The steps from a position on. -/
def stepsFrom (p : Plan ω ι C) (n : Nat) : List (BoundStep ω ι C) := p.definition.steps.flat.drop n

@[simp] theorem stepsFrom_zero (p : Plan ω ι C) : p.stepsFrom 0 = p.definition.steps.flat := List.drop_zero

theorem stepsFrom_of_none (p : Plan ω ι C) {n : Nat} (h : p.step? n = none) : p.stepsFrom n = [] :=
  List.drop_eq_nil_of_le (List.getElem?_eq_none_iff.1 ((p.step?_eq n).symm.trans h))

theorem stepsFrom_of_some (p : Plan ω ι C) {n : Nat} {s : BoundStep ω ι C} (h : p.step? n = some s) :
    p.stepsFrom n = s :: p.stepsFrom (n + 1) := by
  obtain ⟨hn, rfl⟩ := List.getElem?_eq_some_iff.1 ((p.step?_eq n).symm.trans h)
  exact List.drop_eq_getElem_cons hn

/-! ### Positions and phases -/

theorem phaseAt_eq_pre (p : Plan ω ι C) {n : Nat} : p.phaseAt n = .pre ↔ n < p.preBoundary := by
  unfold phaseAt; split
  · simp_all
  · split <;> simp_all

theorem phaseAt_eq_main (p : Plan ω ι C) {n : Nat} :
    p.phaseAt n = .main ↔ p.preBoundary ≤ n ∧ n < p.postBoundary := by
  unfold phaseAt; split
  · simp; omega
  · split <;> simp <;> omega

theorem phaseAt_eq_post (p : Plan ω ι C) {n : Nat} : p.phaseAt n = .post ↔ p.postBoundary ≤ n := by
  have := p.preBoundary_le
  unfold phaseAt; split
  · simp; omega
  · split <;> simp <;> omega

theorem step?_pre (p : Plan ω ι C) {i : Nat} (h : i < p.preBoundary) :
    p.step? i = p.definition.steps.pre[i]? := if_pos h

theorem step?_main (p : Plan ω ι C) {i : Nat} (h : p.preBoundary + i < p.postBoundary) :
    p.step? (p.preBoundary + i) = p.definition.steps.main[i]? := by
  rw [step?, if_neg (Nat.not_lt.2 (Nat.le_add_right ..)), if_pos h, Nat.add_sub_cancel_left]

theorem step?_post (p : Plan ω ι C) (i : Nat) :
    p.step? (p.postBoundary + i) = p.definition.steps.post[i]? := by
  have := p.preBoundary_le
  rw [step?, if_neg (by omega), if_neg (by omega), Nat.add_sub_cancel_left]

@[simp] theorem advance_false (p : Plan ω ι C) (n : Nat) : p.advance false n = n :=
  if_neg fun h => Bool.false_ne_true h.1

theorem advance_of_lt (p : Plan ω ι C) (b : Bool) {n : Nat} (h : n < p.preBoundary) :
    p.advance b n = n := if_neg fun ⟨_, h', _⟩ => Nat.not_lt.2 h' h

theorem advance_of_le (p : Plan ω ι C) (b : Bool) {n : Nat} (h : p.postBoundary ≤ n) :
    p.advance b n = n := if_neg fun ⟨_, _, h'⟩ => Nat.not_lt.2 h h'

theorem advance_true (p : Plan ω ι C) {n : Nat} (h : p.preBoundary ≤ n) :
    p.advance true n = max n p.postBoundary := by
  simp only [advance, true_and]; split <;> omega

/-- Positions of main are passed over once the run is short-circuited, others are reached as they are. -/
theorem advance_eq (p : Plan ω ι C) (b : Bool) (n : Nat) :
    p.advance b n = if b ∧ p.phaseAt n = .main then p.postBoundary else n := by
  simp only [advance, p.phaseAt_eq_main]

theorem phaseAt_advance_true (p : Plan ω ι C) (n : Nat) : p.phaseAt (p.advance true n) ≠ .main := by
  intro h
  obtain ⟨hl, hr⟩ := p.phaseAt_eq_main.1 h
  have hn : p.preBoundary ≤ n := Nat.le_of_not_lt fun hlt => by
    rw [p.advance_of_lt _ hlt] at hl
    omega
  rw [p.advance_true hn] at hr
  omega

/-! ### Labels -/

theorem lookup_labelsFrom (l : String) (n : Nat) (steps : List (BoundStep ω ι C)) :
    (labelsFrom n steps).lookup l = (steps.findIdx? (·.label == some l)).map (· + n) := by
  induction steps generalizing n with
  | nil => rfl
  | cons s rest ih =>
    rw [labelsFrom, List.findIdx?_cons]
    cases hs : s.label with
    | none => simp [ih, Function.comp_def, Nat.add_assoc, Nat.add_comm 1]
    | some l' =>
      by_cases hl : l' = l
      · simp [hl]
      · have hl' : (l == l') = false := by simpa using Ne.symm hl
        simp [List.lookup_cons, hl, hl', ih, Function.comp_def, Nat.add_assoc, Nat.add_comm 1]

/-- A label names the first position whose step carries it. -/
theorem indexOf?_ofDefinition (d : Definition ω ι C) (l : String) :
    (ofDefinition d).indexOf? l = d.steps.flat.findIdx? (·.label == some l) := by
  rw [indexOf?, ofDefinition, lookup_labelsFrom]
  simp

theorem step?_of_indexOf? {d : Definition ω ι C} {l : String} {n : Nat}
    (h : (ofDefinition d).indexOf? l = some n) :
    ∃ step, (ofDefinition d).step? n = some step ∧ step.label = some l := by
  rw [indexOf?_ofDefinition, List.findIdx?_eq_some_iff_getElem] at h
  obtain ⟨hn, hl, -⟩ := h
  exact ⟨_, ((ofDefinition d).step?_eq n).trans (List.getElem?_eq_getElem hn), by simpa using hl⟩

theorem indexOf?_eq_none {d : Definition ω ι C} {l : String} (h : l ∉ d.steps.flat.filterMap (·.label)) :
    (ofDefinition d).indexOf? l = none := by
  rw [indexOf?_ofDefinition, List.findIdx?_eq_none_iff]
  intro step hstep
  refine beq_eq_false_iff_ne.2 fun hl => ?_
  exact h (List.mem_filterMap.2 ⟨step, hstep, hl⟩)

/-- Where no two steps have the same label, a label names the position of its step. -/
theorem indexOf?_of_step? {d : Definition ω ι C} {l : String} {n : Nat} {step : BoundStep ω ι C}
    (hn : (d.steps.flat.filterMap (·.label)).Nodup) (hs : (ofDefinition d).step? n = some step)
    (hl : step.label = some l) : (ofDefinition d).indexOf? l = some n := by
  obtain ⟨hlt, rfl⟩ := List.getElem?_eq_some_iff.1 (((ofDefinition d).step?_eq n).symm.trans hs)
  rw [indexOf?_ofDefinition, List.findIdx?_eq_some_iff_getElem]
  refine ⟨hlt, beq_iff_eq.2 hl, fun j hj hcarries => ?_⟩
  -- A step before it with the same label would be a second one.
  have hpair := List.pairwise_iff_getElem.1 (List.pairwise_filterMap.1 hn) j n (Nat.lt_trans hj hlt) hlt hj
  exact hpair l (beq_iff_eq.1 hcarries) l hl rfl

end Plan
end Pipeworks
