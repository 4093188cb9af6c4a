import Pipeworks.Json.Basic
/-!
# Numbers as doubles

A number is read into a double in two steps: as many of its leading digits as fit a word of 64 bits,
then one multiplication with a power of ten, or a few divisions. A number beyond the greatest double is
refused.
-/

namespace Pipeworks.Json.Number

/-- The leading digits of a whole number that fit a word, and the count of the others. -/
def leading (n : Nat) : Nat × Nat :=
  if n ≤ maxWord then (n, 0)
  else
    let (m, k) := leading (n / 10)
    (m, k + 1)
termination_by n
decreasing_by simp only [maxWord] at *; omega

/-- Adds digits behind the point as long as all of them fit the word. Each lowers the exponent. -/
def addFraction : Nat → Int → List Nat → Nat × Int
  | m, e, [] => (m, e)
  | m, e, d :: ds => if m * 10 + d ≤ maxWord then addFraction (m * 10 + d) (e - 1) ds else (m, e)

/-- The greatest exponent of a power of ten that is a double. -/
def maxPower : Nat := 308

def powerOfTen (e : Nat) : Float := OfScientific.ofScientific 1 false e

/-- Divides by a power of ten, by the greatest one as long as more is due. -/
def scaleDown (x : Float) (e : Nat) : Float :=
  if e ≤ maxPower then x / powerOfTen e
  else if x == 0.0 then x
  else scaleDown (x / powerOfTen maxPower) (e - maxPower)
termination_by e
decreasing_by simp only [maxPower] at *; omega

/-- The magnitude of a significand with an exponent. -/
def scaled? (m : Nat) (e : Int) : Option Float :=
  let x := m.toUInt64.toFloat
  if e < 0 then some (scaleDown x e.natAbs)
  else if e.natAbs ≤ maxPower then
    let y := x * powerOfTen e.natAbs
    if y.isInf then none else some y
  else if m = 0 then some x
  else none

/-- The double of a number. An exponent beyond 32 bits counts as infinite. -/
def toDouble? (n : Number) : Option Float :=
  let (m, dropped) := leading n.whole
  let (m, e) := addFraction m dropped n.fraction
  let x : Option Float :=
    match n.exponent with
    | none => scaled? m e
    | some k =>
      if k.natAbs < 0x80000000 then scaled? m (e + k)
      else if 0 < k ∧ m ≠ 0 then none
      else some 0.0
  x.map fun x => if n.negative then -x else x

end Pipeworks.Json.Number
