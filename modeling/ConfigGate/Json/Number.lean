import ConfigGate.Decimal.Numeral
import ConfigGate.Json.Basic

/-!
# Numbers of a JSON text

A numeral without fraction and exponent is an integer if it fits 64 bits. Every other numeral is
read in stages: its leading digits as far as 64 bits hold them, rounded, then multiplied or divided
by a rounded power of ten. The result can differ from the nearest binary64 number in its last
digits. `Number.ofNumeral` fails where the numeral is out of range. In hexadecimal 2^64 is
0x10000000000000000 and 2^63 is 0x8000000000000000.
-/

namespace ConfigGate.Json.Number

/-- Appends digits to `s` as long as the result fits 64 bits. Gives it with the number of digits
appended. -/
def gather (s : Nat) : List Digit → Nat × Nat
  | [] => (s, 0)
  | d :: ds =>
    if 10 * s + d.val < 0x10000000000000000 then
      let (t, n) := gather (10 * s + d.val) ds
      (t, n + 1)
    else
      (s, 0)

/-- The leading digits of a numeral and the power of ten of the last of them, without the exponent
that is written. -/
def significand (n : Numeral) : Nat × Int :=
  let (s, taken) := gather 0 n.whole
  let (t, appended) := gather s n.fraction
  (t, (n.whole.length : Int) - taken - appended)

/-- The largest power of ten that a binary64 number comes near. -/
def maxPower : Nat := 308

theorem natAbs_add_lt (x : Int) (h : x < -maxPower) : (x + maxPower).natAbs < x.natAbs := by
  simp only [maxPower] at *
  omega

/-- `f` times ten to the power of `x`, each step rounded. -/
def scale? (f : Magnitude) (x : Int) : Option Magnitude :=
  if x < -maxPower then
    if f.isZero then some f
    else do
      let g ← f.div? (← Magnitude.ofNat? (Nat.pow 10 maxPower))
      scale? g (x + maxPower)
  else if x < 0 then do
    f.div? (← Magnitude.ofNat? (Nat.pow 10 x.natAbs))
  else if x ≤ maxPower then do
    f.mul? (← Magnitude.ofNat? (Nat.pow 10 x.natAbs))
  else
    if f.isZero then some f else none
termination_by x.natAbs
decreasing_by exact natAbs_add_lt x ‹_›

/-- Where the digits of an exponent pass 31 bits: how many of them are left after the one that
does. -/
def exponentExcess? (e : Nat) : List Digit → Option Nat
  | [] => none
  | d :: ds =>
    if 10 * e + d.val < 0x80000000 then exponentExcess? (10 * e + d.val) ds else some ds.length

/-- Scales a significand. The error is the number of characters not looked at. -/
def scaled (negative : Bool) (s : Nat) (x : Int) : Except Nat Number :=
  ((Magnitude.ofNat? s).bind (scale? · x)).elim (.error 0) fun f => .ok (float negative f)

/-- A numeral with an exponent or a fraction, or with more than 64 bits. -/
def ofFractional (n : Numeral) : Except Nat Number :=
  let (s, x) := significand n
  match n.exponent with
  | none => scaled n.negative s x
  | some e =>
    match exponentExcess? 0 e.digits with
    | none => scaled n.negative s (x + e.signed (Digits.value e.digits))
    | some unread =>
      if s ≠ 0 ∧ e.negative = false then .error unread else .ok (float n.negative .zero)

theorem fits_nat {s : Nat} (h : s < 0x10000000000000000) :
    -0x8000000000000000 ≤ (s : Int) ∧ (s : Int) < 0x10000000000000000 := by omega

theorem fits_neg {s : Nat} (h : 0 < s ∧ s ≤ 0x8000000000000000) :
    -0x8000000000000000 ≤ -(s : Int) ∧ -(s : Int) < 0x10000000000000000 := by omega

/-- An integer of either sign. Negative zero and what does not fit are floats. -/
def ofInteger (negative : Bool) (s : Nat) (h : s < 0x10000000000000000) : Except Nat Number :=
  if negative then
    if h : 0 < s ∧ s ≤ 0x8000000000000000 then .ok (integer (-s) (fits_neg h)) else scaled true s 0
  else
    .ok (integer s (fits_nat h))

/-- The number that a numeral stands for. The error, for one that is out of range, is how many
characters of the numeral come after the place where this shows. -/
def ofNumeral (n : Numeral) : Except Nat Number :=
  if n.fraction = [] ∧ n.exponent = none then
    let s := Digits.value n.whole
    if h : s < 0x10000000000000000 then ofInteger n.negative s h else ofFractional n
  else
    ofFractional n

end ConfigGate.Json.Number
