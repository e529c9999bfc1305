import ConfigGate.Digits
import ConfigGate.Binary64.Rounding

/-!
# Shortest decimals

`Scientific.ofMagnitude` is a decimal with the fewest digits that rounds back to a magnitude, and of
those the nearest. A grid is the set of multiples of one power of ten. On each the two neighbours of
the magnitude are tried, coarsest grid first.
-/

namespace ConfigGate

/-- What becomes of a magnitude half way between its two neighbours on a grid. -/
inductive Tie where
  | up
  | even
deriving DecidableEq

/-- The decimal `d₁.d₂…dₙ * 10 ^ exponent`. -/
structure Scientific where
  digits : List Digit
  exponent : Int
deriving DecidableEq

namespace Magnitude

/-- The power of ten of the first digit of a magnitude that is not zero. -/
def leadingPower (x : Magnitude) : Int :=
  if perOne ≤ x.units then Digits.count (x.units / perOne) - 1
  else -Digits.count ((perOne - 1) / x.units)

/-- `x / 10 ^ power` as a quotient of natural numbers. -/
def ratio (x : Magnitude) (power : Int) : Nat × Nat :=
  if 0 ≤ power then (x.units, perOne * Nat.pow 10 power.toNat)
  else (x.units * Nat.pow 10 (-power).toNat, perOne)

/-- Whether `coefficient * 10 ^ power` rounds to `x`. -/
def readsBack (x : Magnitude) (coefficient : Nat) (power : Int) : Bool :=
  ofDecimal? coefficient power = some x

/-- The multiple of `10 ^ power` beside `x` that rounds to `x`, the nearer one of two. -/
def gridPoint? (tie : Tie) (x : Magnitude) (power : Int) : Option Nat :=
  let (num, den) := x.ratio power
  let below := num / den
  let above := below + 1
  let twice := 2 * (num % den)
  match x.readsBack below power, x.readsBack above power with
  | true, true =>
    if twice < den then some below
    else if den < twice then some above
    else match tie with
      | .up => some above
      | .even => some (below + below % 2)
  | true, false => some below
  | false, true => some above
  | false, false => none

/-- A coefficient and a power of ten for `x`, which is not zero: on the first of seventeen grids
that has one, and else the exact value. -/
def shortest (tie : Tie) (x : Magnitude) : Nat × Int :=
  let leading := x.leadingPower
  let grid? (n : Nat) : Option (Nat × Int) :=
    (gridPoint? tie x (leading - n)).map (·, leading - n)
  match (List.range 17).findSome? grid? with
  | some decimal => decimal
  | none => (x.units * Nat.pow 5 1074, -1074)

end Magnitude

namespace Scientific

/-- `coefficient * 10 ^ power` for a coefficient that is not zero. -/
def ofDecimal (coefficient : Nat) (power : Int) : Scientific :=
  let ds := Digits.decimal coefficient
  ⟨Digits.dropZeros ds, power + (ds.length - 1 : Nat)⟩

/-- The shortest decimal of `x`, which is not zero. -/
def ofMagnitude (tie : Tie) (x : Magnitude) : Scientific :=
  let (coefficient, power) := x.shortest tie
  ofDecimal coefficient power

end Scientific

end ConfigGate
