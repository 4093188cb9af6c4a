import Pipeworks.Json.Printer
import Pipeworks.Json.Token

/-!
# Printed numbers

A printed number is read as it was (`next?_print`): its digits say the whole part, none of them is a
zero in front of others, and each part ends where the next begins. The last one ends where a character follows that
cannot be part of a number.
-/

namespace Pipeworks.Json.Token

/-! ### Digits -/

/-- The digits of a number in the order they are printed. -/
def printedDigits (n : Nat) : List Nat := (Nat.toDigits 10 n).filterMap digit?

theorem digit?_digitChar {d : Nat} (h : d < 10) : digit? (Nat.digitChar d) = some d := by
  revert d
  decide

theorem filterMap_digitChar {ds : List Nat} (h : ∀ d ∈ ds, d < 10) :
    (ds.map Nat.digitChar).filterMap digit? = ds := by
  induction ds with
  | nil => rfl
  | cons d ds ih =>
    obtain ⟨hd, hds⟩ := List.forall_mem_cons.1 h
    rw [List.map_cons, List.filterMap_cons_some (digit?_digitChar hd), ih hds]

theorem isDigit_eq (c : Char) : isDigit c = c.isDigit := by
  have hdigit : ('0' ≤ c ∧ c ≤ '9') ↔ c.isDigit := by simp [Char.isDigit, Char.le_def]
  simp only [isDigit, digit?, hdigit]
  cases c.isDigit <;> rfl

theorem isDigit_of_mem_toDigits {n : Nat} {c : Char} (h : c ∈ Nat.toDigits 10 n) : isDigit c = true :=
  (isDigit_eq c).trans (Nat.isDigit_of_mem_toDigits (by decide) (by decide) h)

theorem printedDigits_of_lt {n : Nat} (h : n < 10) : printedDigits n = [n] := by
  rw [printedDigits, Nat.toDigits_of_lt_base h, List.filterMap_cons_some (digit?_digitChar h),
    List.filterMap_nil]

theorem printedDigits_of_le {n : Nat} (h : 10 ≤ n) : printedDigits n = printedDigits (n / 10) ++ [n % 10] := by
  have hsplit : Nat.toDigits 10 n = Nat.toDigits 10 (n / 10) ++ Nat.toDigits 10 (n % 10) := by
    rw [Nat.toDigits_append_toDigits (by decide) (by omega) (by omega), Nat.div_add_mod]
  rw [printedDigits, hsplit, List.filterMap_append]
  exact congrArg _ (printedDigits_of_lt (by omega))

theorem value_printedDigits (n : Nat) : value (printedDigits n) = n := by
  induction n using Nat.strongRecOn with
  | ind n ih =>
    by_cases h : n < 10
    · rw [printedDigits_of_lt h]
      exact Nat.zero_add n
    · have hvalue := ih (n / 10) (by omega)
      rw [value] at hvalue
      rw [printedDigits_of_le (by omega), value, List.foldl_append, hvalue]
      exact Nat.div_add_mod' n 10

theorem printedDigits_ne_nil (n : Nat) : printedDigits n ≠ [] := by
  by_cases h : n < 10
  · simp [printedDigits_of_lt h]
  · simp [printedDigits_of_le (Nat.le_of_not_lt h)]

/-- No zero is printed in front of other digits. -/
theorem head?_printedDigits {n : Nat} (h : n ≠ 0) : (printedDigits n).head? ≠ some 0 := by
  induction n using Nat.strongRecOn with
  | ind n ih =>
    by_cases hlt : n < 10
    · simpa [printedDigits_of_lt hlt] using h
    · obtain ⟨d, hd⟩ :=
        Option.ne_none_iff_exists'.1 (mt List.head?_eq_none_iff.1 (printedDigits_ne_nil (n / 10)))
      have hhead := ih (n / 10) (by omega) (by omega)
      rwa [printedDigits_of_le (by omega), List.head?_append, hd, Option.some_or, ← hd]

/-- Digits end where a character follows that is none. -/
theorem digits_append {cs rest : List Char} (h : ∀ c ∈ cs, isDigit c = true)
    (hrest : ∀ c ∈ rest.head?, isDigit c = false) : digits (cs ++ rest) = (cs.filterMap digit?, rest) := by
  have htake : rest.takeWhile isDigit = [] := by
    cases rest with
    | nil => rfl
    | cons c rest => simp [hrest c rfl]
  have hdrop : rest.dropWhile isDigit = rest := by
    cases rest with
    | nil => rfl
    | cons c rest => simp [hrest c rfl]
  rw [digits, List.takeWhile_append_of_pos h, List.dropWhile_append_of_pos h, htake, hdrop, List.append_nil]

theorem digits_toDigits (n : Nat) {rest : List Char} (hrest : ∀ c ∈ rest.head?, isDigit c = false) :
    digits (Nat.toDigits 10 n ++ rest) = (printedDigits n, rest) :=
  digits_append (fun _ h => isDigit_of_mem_toDigits h) hrest

/-! ### Parts of a number -/

def fractionChars : List Nat → List Char
  | [] => []
  | ds => '.' :: ds.map Nat.digitChar

def exponentChars (e : Option Int) : List Char := e.elim [] fun e => 'e' :: (toString e).toList

/-- A character that ends a number. -/
def EndsNumber (c : Char) : Prop := isDigit c = false ∧ c ≠ '.' ∧ c ≠ 'e' ∧ c ≠ 'E'

theorem fraction?_fractionChars {ds : List Nat} (h : ∀ d ∈ ds, d < 10) {rest : List Char}
    (hrest : ∀ c ∈ rest.head?, isDigit c = false ∧ c ≠ '.') :
    fraction? (fractionChars ds ++ rest) = some (ds, rest) := by
  cases ds with
  | nil =>
    cases rest with
    | nil => rfl
    | cons c rest =>
      rw [fractionChars, List.nil_append, fraction?]
      intro _ hdot
      exact (hrest c rfl).2 (List.cons.inj hdot).1
  | cons d ds =>
    have hdigit : ∀ c ∈ (d :: ds).map Nat.digitChar, isDigit c = true := by
      intro c hc
      obtain ⟨e, he, rfl⟩ := List.mem_map.1 hc
      rw [isDigit, digit?_digitChar (h e he)]
      rfl
    rw [fractionChars, List.cons_append, fraction?, digits_append hdigit fun c hc => (hrest c hc).1,
      filterMap_digitChar h]
    · rfl
    · nofun

/-- The digits of a number are not led by a sign. -/
theorem sign_toDigits (n : Nat) (rest : List Char) :
    sign (Nat.toDigits 10 n ++ rest) = (false, Nat.toDigits 10 n ++ rest) := by
  cases hdigits : Nat.toDigits 10 n with
  | nil => exact absurd hdigits Nat.toDigits_ne_nil
  | cons c cs =>
    have hc : isDigit c = true := isDigit_of_mem_toDigits (hdigits ▸ List.mem_cons_self ..)
    rw [List.cons_append, sign]
    all_goals
      intro _ hsign
      rw [(List.cons.inj hsign).1] at hc
      cases hc

theorem exponent?_exponentChars (e : Option Int) {rest : List Char} (hrest : ∀ c ∈ rest.head?, EndsNumber c) :
    exponent? (exponentChars e ++ rest) = some (e, rest) := by
  cases e with
  | none =>
    cases rest with
    | nil => rfl
    | cons c rest =>
      obtain ⟨-, -, hlower, hupper⟩ := hrest c rfl
      exact if_neg (not_or.2 ⟨hlower, hupper⟩)
  | some e =>
    have hdigits (n : Nat) := digits_toDigits n fun c hc => (hrest c hc).1
    have hvalue (n : Nat) : (printedDigits n).isEmpty = false :=
      List.isEmpty_eq_false_iff.2 (printedDigits_ne_nil n)
    cases e with
    | ofNat n =>
      have hchars : (toString (Int.ofNat n)).toList = Nat.toDigits 10 n := Nat.toList_repr
      rw [exponentChars, Option.elim_some, hchars, List.cons_append, exponent?, if_pos (.inl rfl)]
      simp [sign_toDigits, hdigits, hvalue, value_printedDigits]
    | negSucc n =>
      have hchars : (toString (Int.negSucc n)).toList = '-' :: Nat.toDigits 10 (n + 1) := by
        rw [← Nat.toList_repr]
        exact String.toList_append ..
      rw [exponentChars, Option.elim_some, hchars, List.cons_append, exponent?, if_pos (.inl rfl)]
      simp [sign, hdigits, hvalue, value_printedDigits, Int.negSucc_eq]

theorem isDigit_head?_fractionChars {ds : List Nat} {rest : List Char}
    (hrest : ∀ c ∈ rest.head?, isDigit c = false) :
    ∀ c ∈ (fractionChars ds ++ rest).head?, isDigit c = false := by
  cases ds with
  | nil => exact hrest
  | cons d ds =>
    rintro c ⟨⟩
    rfl

theorem head?_exponentChars {e : Option Int} {rest : List Char} (hrest : ∀ c ∈ rest.head?, EndsNumber c) :
    ∀ c ∈ (exponentChars e ++ rest).head?, isDigit c = false ∧ c ≠ '.' := by
  cases e with
  | none => exact fun c hc => ⟨(hrest c hc).1, (hrest c hc).2.1⟩
  | some e =>
    rintro c ⟨⟩
    exact ⟨rfl, by decide⟩

/-- What is printed of a number behind its sign. -/
def magnitudeChars (n : Number) : List Char :=
  Nat.toDigits 10 n.whole ++ (fractionChars n.fraction ++ exponentChars n.exponent)

theorem magnitudeChars_eq_cons (n : Number) : ∃ c cs, magnitudeChars n = c :: cs ∧ isDigit c = true := by
  cases hdigits : Nat.toDigits 10 n.whole with
  | nil => exact absurd hdigits Nat.toDigits_ne_nil
  | cons c cs =>
    exact ⟨c, _, by rw [magnitudeChars, hdigits, List.cons_append],
      isDigit_of_mem_toDigits (hdigits ▸ List.mem_cons_self ..)⟩

theorem magnitude?_magnitudeChars {n : Number} (h : ∀ d ∈ n.fraction, d < 10) {rest : List Char}
    (hrest : ∀ c ∈ rest.head?, EndsNumber c) :
    magnitude? n.negative (magnitudeChars n ++ rest) = some (.number n, rest) := by
  have hexponent := head?_exponentChars (e := n.exponent) hrest
  have hwhole : guard (!(printedDigits n.whole).isEmpty
      && ((printedDigits n.whole).head? != some 0 || (printedDigits n.whole).length == 1)) = some () := by
    refine if_pos ?_
    rw [List.isEmpty_eq_false_iff.2 (printedDigits_ne_nil _), Bool.not_false, Bool.true_and, Bool.or_eq_true]
    by_cases hzero : n.whole = 0
    · exact .inr (by rw [hzero]; rfl)
    · exact .inl (bne_iff_ne.2 (head?_printedDigits hzero))
  rw [magnitudeChars, List.append_assoc, List.append_assoc, magnitude?,
    digits_toDigits _ (isDigit_head?_fractionChars fun c hc => (hexponent c hc).1)]
  dsimp only
  rw [hwhole]
  simp only [Option.bind_eq_bind, Option.bind_some, fraction?_fractionChars h hexponent,
    exponent?_exponentChars n.exponent hrest, value_printedDigits]
  rfl

theorem toList_join_digits {ds : List Nat} (h : ∀ d ∈ ds, d < 10) :
    (String.join (ds.map toString)).toList = ds.map Nat.digitChar := by
  rw [String.toList_join]
  induction ds with
  | nil => rfl
  | cons d ds ih =>
    obtain ⟨hd, hds⟩ := List.forall_mem_cons.1 h
    have hdigit : (toString d).toList = [Nat.digitChar d] := Nat.toList_repr.trans (Nat.toDigits_of_lt_base hd)
    rw [List.map_cons, List.flatMap_cons, ih hds, hdigit, List.singleton_append, List.map_cons]

theorem toList_print {n : Number} (h : ∀ d ∈ n.fraction, d < 10) :
    n.print.toList = (if n.negative then ['-'] else []) ++ magnitudeChars n := by
  have hsign : (if n.negative then "-" else "").toList = if n.negative then ['-'] else [] := by
    split <;> rfl
  have hwhole : (toString n.whole).toList = Nat.toDigits 10 n.whole := Nat.toList_repr
  have hfraction : (if n.fraction.isEmpty then "" else "." ++ String.join (n.fraction.map toString)).toList
      = fractionChars n.fraction := by
    cases hds : n.fraction with
    | nil => rfl
    | cons d ds => exact (String.toList_append ..).trans (congrArg _ (toList_join_digits (hds ▸ h)))
  have hexponent : (n.exponent.elim "" fun e => "e" ++ toString e).toList = exponentChars n.exponent := by
    cases n.exponent with
    | none => rfl
    | some e => exact String.toList_append ..
  rw [Number.print, String.toList_append, String.toList_append, String.toList_append, hsign, hwhole, hfraction,
    hexponent, List.append_assoc, List.append_assoc, magnitudeChars]

/-! ### The token of a number -/

theorem next?_digit {c : Char} (h : isDigit c = true) (cs : List Char) :
    next? c cs = magnitude? false (c :: cs) := by
  unfold next?
  split
  case h_12 => exact if_pos h
  all_goals cases h

theorem isBlank_digit {c : Char} (h : isDigit c = true) : isBlank c = false := by
  refine Bool.eq_false_iff.2 fun hblank => ?_
  simp only [isBlank, Bool.or_eq_true, beq_iff_eq] at hblank
  rcases hblank with ((rfl | rfl) | rfl) | rfl <;> cases h

/-- A printed number is the next token, wherever it ends. -/
theorem next?_print {n : Number} (h : ∀ d ∈ n.fraction, d < 10) {rest : List Char}
    (hrest : ∀ c ∈ rest.head?, EndsNumber c) :
    ∃ c cs, n.print.toList = c :: cs ∧ isBlank c = false ∧ next? c (cs ++ rest) = some (.number n, rest) := by
  have hread := magnitude?_magnitudeChars h hrest
  rw [toList_print h]
  cases hn : n.negative with
  | true =>
    rw [hn] at hread
    exact ⟨'-', magnitudeChars n, rfl, rfl, hread⟩
  | false =>
    obtain ⟨c, cs, hcs, hc⟩ := magnitudeChars_eq_cons n
    rw [hn, hcs] at hread
    exact ⟨c, cs, hcs, isBlank_digit hc, (next?_digit hc _).trans hread⟩

end Pipeworks.Json.Token
