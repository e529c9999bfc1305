import ConfigGate.Binary64.Magnitude

/-!
# Rounding to binary64

`Magnitude.nearest? num den` is the magnitude nearest to the quotient `num / den`, a tie going to
the even one, or none where the quotient lies beyond the largest magnitude by half a step or more.
Arithmetic is exact up to this one rounding.
-/

namespace ConfigGate

/-- `num / den` rounded to the nearest natural number, a half to the even one. -/
def divRound (num den : Nat) : Nat :=
  let q := num / den
  let r := num % den
  if 2 * r < den then q else if den < 2 * r then q + 1 else q + q % 2

namespace Magnitude

/-- The magnitude nearest to `num / den`. Above 2^53 units the spacing doubles with every power of
two, and `e` is how often it has. -/
def nearest? (num den : Nat) : Option Magnitude :=
  let scaled := num * perOne
  let e := (scaled / den).log2 - 52
  let k := e * 0x10000000000000 + divRound scaled (den * Nat.pow 2 e)
  if h : k < 2047 * 0x10000000000000 then some ⟨k, h⟩ else none

/-- The magnitude nearest to `n`. -/
def ofNat? (n : Nat) : Option Magnitude := nearest? n 1

/-- The magnitude nearest to `coefficient * 10 ^ power`. -/
def ofDecimal? (coefficient : Nat) (power : Int) : Option Magnitude :=
  if 0 ≤ power then nearest? (coefficient * Nat.pow 10 power.toNat) 1
  else nearest? coefficient (Nat.pow 10 (-power).toNat)

/-- The rounded product. -/
def mul? (x y : Magnitude) : Option Magnitude := nearest? (x.units * y.units) (perOne * perOne)

/-- The rounded quotient. -/
def div? (x y : Magnitude) : Option Magnitude := nearest? x.units y.units

end Magnitude

end ConfigGate
