import ConfigGate.Binary64.Rounding

/-!
# Binary64 numbers

The numbers that a measurement can take: finite ones with either sign of zero, the infinities, and
one value that is no number. Comparison with an integer is exact.
-/

namespace ConfigGate

inductive Binary64 where
  | finite (negative : Bool) (magnitude : Magnitude)
  | infinite (negative : Bool)
  | nan
deriving DecidableEq

/-- The value of a signed magnitude in units. -/
def Magnitude.signedUnits (negative : Bool) (x : Magnitude) : Int :=
  if negative then -(x.units : Int) else x.units

namespace Binary64

/-- The number nearest to a magnitude that may be out of range, with a sign. -/
def ofMagnitude? (negative : Bool) : Option Magnitude → Binary64
  | some x => finite negative x
  | none => infinite negative

/-- `x < n`, never true of `nan`. -/
def isBelow : Binary64 → Int → Bool
  | finite s x, n => x.signedUnits s < n * Magnitude.perOne
  | infinite s, _ => s
  | nan, _ => false

/-- `n < x`, never true of `nan`. -/
def isAbove : Binary64 → Int → Bool
  | finite s x, n => n * Magnitude.perOne < x.signedUnits s
  | infinite s, _ => !s
  | nan, _ => false

def isNaN : Binary64 → Bool
  | nan => true
  | _ => false

end Binary64

end ConfigGate
