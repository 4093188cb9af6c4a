/-!
# Identities of runs

A run is named by 128 bits, written as 32 hexadecimal digits in five groups.
-/

namespace Pipeworks

structure RunId where
  value : Nat
  deriving DecidableEq

namespace RunId

/-- The identity number `n`. Its version is 4 and its variant the common one. -/
def numbered (n : Nat) : RunId := ⟨0x40008000000000000000 + n % 0x4000000000000000⟩

def version (r : RunId) : Nat := r.value / 0x10000000000000000000 % 16

def hexDigits (r : RunId) : List Char :=
  let digits := Nat.toDigits 16 r.value
  List.replicate (32 - digits.length) '0' ++ digits

def text (r : RunId) : String :=
  let h := r.hexDigits
  String.ofList (h.take 8 ++ '-' :: (h.drop 8).take 4 ++ '-' :: (h.drop 12).take 4 ++
    '-' :: (h.drop 16).take 4 ++ '-' :: h.drop 20)

def hexDigit? (c : Char) : Option Nat :=
  if '0' ≤ c ∧ c ≤ '9' then some (c.toNat - '0'.toNat)
  else if 'a' ≤ c ∧ c ≤ 'f' then some (c.toNat - 'a'.toNat + 10)
  else if 'A' ≤ c ∧ c ≤ 'F' then some (c.toNat - 'A'.toNat + 10)
  else none

/-- The mark that a resource name begins with. Its letters may be of either case. -/
def resourceMark : List Char := "urn:uuid:".toList

/-- The characters inside braces, or behind the mark of a resource name. -/
def inner? : List Char → Option (List Char)
  | '{' :: cs => if cs.getLast? = some '}' then some cs.dropLast else none
  | cs =>
    if (cs.take resourceMark.length).map Char.toLower = resourceMark then
      some (cs.drop resourceMark.length)
    else none

/-- Reads an identity written without any hyphen or in five groups, in either case of letters. It may be
in braces or a resource name. -/
def ofText? (s : String) : Option RunId := do
  let cs := (inner? s.toList).getD s.toList
  let digits := cs.filter (· ≠ '-')
  let hyphens := (cs.zipIdx.filter (·.1 = '-')).map (·.2)
  guard (digits.length = 32 ∧ (hyphens = [8, 13, 18, 23] ∨ hyphens = []))
  let values ← digits.mapM hexDigit?
  pure ⟨values.foldl (fun n d => n * 16 + d) 0⟩

end RunId
end Pipeworks
