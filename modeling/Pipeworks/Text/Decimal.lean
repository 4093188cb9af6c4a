import Pipeworks.Duration
/-!
# Decimal limits

Reading a limit from a text: an optional plus sign and decimal digits, with a value that fits a word
of 64 bits. The characters are read from the left, so the first fault met is the one reported. The
texts that are read are the numerals of such values (`readLimit_eq_ok`).
-/

namespace Pipeworks.Text

inductive LimitFault where
  | empty
  | notADigit
  | tooLarge
  deriving DecidableEq

def LimitFault.message : LimitFault → String
  | empty => "cannot parse integer from empty string"
  | notADigit => "invalid digit found in string"
  | tooLarge => "number too large to fit in target type"

def digit? (c : Char) : Option Nat :=
  if '0' ≤ c ∧ c ≤ '9' then some (c.toNat - '0'.toNat) else none

def readDigits (acc : Nat) : List Char → Except LimitFault Nat
  | [] => .ok acc
  | c :: cs =>
    match digit? c with
    | none => .error .notADigit
    | some d => if acc * 10 + d ≤ maxWord then readDigits (acc * 10 + d) cs else .error .tooLarge

def readLimit : List Char → Except LimitFault Nat
  | [] => .error .empty
  | ['+'] => .error .notADigit
  | '+' :: cs => readDigits 0 cs
  | cs => readDigits 0 cs

/-- `cs` is the number `n` in decimal digits, perhaps with zeros before it. -/
def IsNumeral (cs : List Char) (n : Nat) : Prop :=
  cs ≠ [] ∧ (∀ c ∈ cs, c.isDigit) ∧ n = Nat.ofDigitChars 10 cs 0

/-- `cs` is the number `n`, perhaps with a plus sign before it. -/
inductive IsLimit : List Char → Nat → Prop
  | unsigned {cs : List Char} {n : Nat} (h : IsNumeral cs n) : IsLimit cs n
  | plus {cs : List Char} {n : Nat} (h : IsNumeral cs n) : IsLimit ('+' :: cs) n

theorem digit?_eq {c : Char} :
    digit? c = if c.isDigit then some (c.toNat - '0'.toNat) else none := by
  have hdigit : ('0' ≤ c ∧ c ≤ '9') ↔ c.isDigit := by simp [Char.isDigit, Char.le_def]
  simp only [digit?, hdigit]

theorem le_ofDigitChars (cs : List Char) (acc : Nat) : acc ≤ Nat.ofDigitChars 10 cs acc := by
  induction cs generalizing acc with
  | nil => exact Nat.le_refl acc
  | cons c cs ih =>
    rw [Nat.ofDigitChars_cons]
    exact Nat.le_trans (by omega) (ih _)

/-- The value only grows with the digits, so the check at each digit is one of the whole number. -/
theorem readDigits_eq_ok {cs : List Char} {acc n : Nat} (h : acc ≤ maxWord) :
    readDigits acc cs = .ok n ↔
      (∀ c ∈ cs, c.isDigit) ∧ n = Nat.ofDigitChars 10 cs acc ∧ n ≤ maxWord := by
  induction cs generalizing acc with
  | nil =>
    rw [readDigits, Nat.ofDigitChars_nil, Except.ok.injEq]
    exact ⟨fun hn => ⟨List.forall_mem_nil _, hn.symm, hn ▸ h⟩, fun hn => hn.2.1.symm⟩
  | cons c cs ih =>
    rw [readDigits, Nat.ofDigitChars_cons, digit?_eq, List.forall_mem_cons, Nat.mul_comm 10 acc]
    by_cases hdigit : c.isDigit
    · simp only [hdigit, if_true, true_and]
      split
      · rename_i hle
        exact ih hle
      · rename_i hlt
        have := le_ofDigitChars cs (acc * 10 + (c.toNat - '0'.toNat))
        constructor
        · nofun
        · rintro ⟨-, rfl, hle⟩
          omega
    · simp [hdigit]

theorem readDigits_zero_eq_ok {cs : List Char} {n : Nat} (h : cs ≠ []) :
    readDigits 0 cs = .ok n ↔ IsNumeral cs n ∧ n ≤ maxWord := by
  rw [readDigits_eq_ok (Nat.zero_le maxWord), IsNumeral]
  exact ⟨fun hr => ⟨⟨h, hr.1, hr.2.1⟩, hr.2.2⟩, fun hr => ⟨hr.1.2.1, hr.1.2.2, hr.2⟩⟩

/-- A plus sign is not a digit, so it is read in one way only. -/
theorem isLimit_plus {cs : List Char} {n : Nat} : IsLimit ('+' :: cs) n ↔ IsNumeral cs n := by
  refine ⟨fun h => ?_, .plus⟩
  cases h with
  | unsigned h => exact absurd (h.2.1 '+' (List.mem_cons_self ..)) (by decide)
  | plus h => exact h

theorem isLimit_unsigned {cs : List Char} {n : Nat} (h : ∀ ds, cs ≠ '+' :: ds) :
    IsLimit cs n ↔ IsNumeral cs n := by
  refine ⟨fun hl => ?_, .unsigned⟩
  cases hl with
  | unsigned hl => exact hl
  | plus hl => exact absurd rfl (h _)

theorem readLimit_eq_ok {cs : List Char} {n : Nat} :
    readLimit cs = .ok n ↔ IsLimit cs n ∧ n ≤ maxWord := by
  fun_cases readLimit cs with
  | case1 =>
    rw [isLimit_unsigned fun ds h => (by cases h)]
    exact ⟨fun h => (by cases h), fun h => absurd rfl h.1.1⟩
  | case2 =>
    rw [isLimit_plus]
    exact ⟨fun h => (by cases h), fun h => absurd rfl h.1.1⟩
  | case3 ds hne => rw [isLimit_plus, readDigits_zero_eq_ok hne]
  | case4 cs hne hplus hsign => rw [isLimit_unsigned hsign, readDigits_zero_eq_ok hne]

end Pipeworks.Text
