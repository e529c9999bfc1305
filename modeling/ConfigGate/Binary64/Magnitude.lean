/-!
# Magnitudes of binary64 numbers

The non-negative finite binary64 numbers are spaced so that counting them from zero gives their
bit patterns. A `Magnitude` is that count, and `units` is its value as a multiple of 2^-1074, the
distance between zero and the next number. The constant 0x10000000000000 is 2^52, the number of
magnitudes from one power of two to the next.
-/

namespace ConfigGate

/-- A non-negative finite binary64 number. -/
structure Magnitude where
  /-- How many smaller magnitudes there are. It is also the bit pattern. -/
  ordinal : Nat
  lt : ordinal < 2047 * 0x10000000000000
deriving DecidableEq

namespace Magnitude

def zero : Magnitude := ⟨0, by decide⟩

def one : Magnitude := ⟨1023 * 0x10000000000000, by decide⟩

def isZero (x : Magnitude) : Bool := x.ordinal = 0

/-- How many units make one. -/
def perOne : Nat := Nat.pow 2 1074

/-- The value of `x` in units. -/
def units (x : Magnitude) : Nat :=
  if x.ordinal < 0x20000000000000 then x.ordinal
  else
    (0x10000000000000 + x.ordinal % 0x10000000000000) *
      Nat.pow 2 (x.ordinal / 0x10000000000000 - 1)

end Magnitude

end ConfigGate
