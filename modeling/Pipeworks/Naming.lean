import Pipeworks.Phase

/-!
# Names of steps

`stepName_inj`: a name tells its place. The tags of the phases part the names of different phases, the digits
of an index end where a label begins, and a number is what its digits say.
-/

namespace Pipeworks.Phase

/-- What stands behind the index in a name. -/
def labelPart (label : Option String) : List Char := label.elim [] fun l => ':' :: l.toList

theorem toList_stepName (p : Phase) (i : Nat) (label : Option String) :
    (p.stepName i label).toList = p.tag.toList ++ (Nat.toDigits 10 i ++ labelPart label) := by
  have hindex : (toString i).toList = Nat.toDigits 10 i := Nat.toList_repr
  rw [stepName, String.toList_append, String.toList_append, hindex, List.append_assoc]
  cases label with
  | none => rfl
  | some l => rw [Option.elim_some, String.toList_append]; rfl

theorem labelPart_inj {a b : Option String} (h : labelPart a = labelPart b) : a = b := by
  cases a with
  | none =>
    cases b with
    | none => rfl
    | some l => cases h
  | some l =>
    cases b with
    | none => cases h
    | some m => rw [String.toList_inj.1 (List.cons.inj h).2]

/-- The digits of a name end where its label begins. -/
theorem takeWhile_index (i : Nat) (label : Option String) :
    (Nat.toDigits 10 i ++ labelPart label).takeWhile Char.isDigit = Nat.toDigits 10 i := by
  have hdigits : ∀ c ∈ Nat.toDigits 10 i, c.isDigit = true :=
    fun c hc => Nat.isDigit_of_mem_toDigits (by decide) (by decide) hc
  have hlabel : (labelPart label).takeWhile Char.isDigit = [] := by cases label <;> rfl
  rw [List.takeWhile_append_of_pos hdigits, hlabel, List.append_nil]

theorem tag_append_inj {p q : Phase} {i j : Nat} {r s : List Char}
    (h : p.tag.toList ++ (Nat.toDigits 10 i ++ r) = q.tag.toList ++ (Nat.toDigits 10 j ++ s)) :
    p = q ∧ Nat.toDigits 10 i ++ r = Nat.toDigits 10 j ++ s := by
  cases p <;> cases q <;> simp_all [tag]

theorem stepName_inj {p q : Phase} {i j : Nat} {a b : Option String}
    (h : p.stepName i a = q.stepName j b) : p = q ∧ i = j ∧ a = b := by
  have hl := congrArg String.toList h
  rw [toList_stepName, toList_stepName] at hl
  obtain ⟨hphase, hrest⟩ := tag_append_inj hl
  have hindex : Nat.toDigits 10 i = Nat.toDigits 10 j := by
    rw [← takeWhile_index i a, hrest, takeWhile_index]
  have hlabel : labelPart a = labelPart b := by
    rw [hindex] at hrest
    exact List.append_cancel_left hrest
  refine ⟨hphase, ?_, labelPart_inj hlabel⟩
  rw [← Nat.ofDigitChars_ten_toDigits (n := i), hindex, Nat.ofDigitChars_ten_toDigits]

end Pipeworks.Phase
