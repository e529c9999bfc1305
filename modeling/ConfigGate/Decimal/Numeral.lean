import ConfigGate.Digits
import ConfigGate.Binary64.Basic

/-!
# Decimal numerals

A `Numeral` is a sign, digits before and after the point, and a power of ten. It stands for
`± coefficient * 10 ^ power`.
-/

namespace ConfigGate

/-- The digits at the start of a text, and what follows them. -/
def Digits.scan : List Char → List Digit × List Char
  | [] => ([], [])
  | c :: s =>
    match Digit.ofChar? c with
    | some d =>
      let rest := scan s
      (d :: rest.1, rest.2)
    | none => ([], c :: s)

theorem Digits.length_scan (s : List Char) :
    (scan s).1.length + (scan s).2.length = s.length := by
  induction s with
  | nil => rfl
  | cons c s ih =>
    rw [scan]
    split
    · simp only [List.length_cons]; omega
    · simp

theorem Digits.length_scan_lt {s : List Char} (h : (scan s).1 ≠ []) :
    (scan s).2.length < s.length := by
  have := length_scan s
  have := List.length_pos_iff.2 h
  omega

/-- The part of a numeral after the letter `e`. -/
structure Exponent where
  negative : Bool
  digits : List Digit
deriving DecidableEq

/-- `n` with the sign of the exponent. -/
def Exponent.signed (e : Exponent) (n : Nat) : Int := if e.negative then -(n : Int) else n

structure Numeral where
  negative : Bool
  whole : List Digit
  fraction : List Digit
  exponent : Option Exponent
deriving DecidableEq

namespace Numeral

/-- The number that the digits on both sides of the point spell. -/
def coefficient (n : Numeral) : Nat := Digits.value (n.whole ++ n.fraction)

/-- The power of ten that is written. -/
def writtenPower (n : Numeral) : Int :=
  match n.exponent with
  | none => 0
  | some e => e.signed (Digits.value e.digits)

/-- The power of ten of the last digit. -/
def power (n : Numeral) : Int := n.writtenPower - n.fraction.length

end Numeral

end ConfigGate
