/-!
# Spans of time

A span of time is a count of nanoseconds of any size. What is reported about it is a word of 64
bits: a count that does not fit is reported as the greatest word.
-/

namespace Pipeworks

/-- A span of time in nanoseconds, or a reading of a clock. -/
abbrev Nanos := Nat

/-- The greatest word of 64 bits. -/
def maxWord : Nat := 0xffffffffffffffff

/-- A count as it is reported. -/
def saturate (n : Nat) : Nat := min n maxWord

/-- Whole milliseconds as they are reported; the rest is dropped. -/
def Nanos.millis (d : Nanos) : Nat := saturate (d / 1000000)

end Pipeworks
