import ConfigGate.Decimal.Numeral

/-!
# Numbers written as text

A numeric text is a numeral with an optional sign, digits on at least one side of the point and an
optional exponent, or the name of an infinity or of `nan` in any letter case. It is read as the
nearest binary64 number.
-/

namespace ConfigGate.NumericText

/-- An optional sign, true for a minus. -/
def sign : List Char → Bool × List Char
  | '+' :: s => (false, s)
  | '-' :: s => (true, s)
  | s => (false, s)

/-- An exponent that ends the text, or the end of the text. -/
def exponent? : List Char → Option (Option Exponent)
  | [] => some none
  | c :: s =>
    if c = 'e' ∨ c = 'E' then
      match Digits.scan (sign s).2 with
      | (d :: ds, []) => some (some ⟨(sign s).1, d :: ds⟩)
      | _ => none
    else
      none

/-- The digits after a point, if there is one. -/
def fraction : List Char → List Digit × List Char
  | '.' :: s => Digits.scan s
  | s => ([], s)

/-- A numeral behind its sign. -/
def numeral? (negative : Bool) (s : List Char) : Option Numeral :=
  let (whole, s) := Digits.scan s
  let (fraction, s) := fraction s
  if whole = [] ∧ fraction = [] then none
  else (exponent? s).map fun e => ⟨negative, whole, fraction, e⟩

/-- An exponent's digits are read until the number passes 2^16. What a longer one stands for is as
far out of range either way. -/
def boundedPower (digits : List Digit) : Nat :=
  digits.foldl (fun n d => if n < 0x10000 then 10 * n + d.val else n) 0

/-- The power of ten of the last digit of a numeral, read with a bounded exponent. -/
def power (n : Numeral) : Int :=
  match n.exponent with
  | none => -(n.fraction.length : Int)
  | some e => e.signed (boundedPower e.digits) - n.fraction.length

/-- The binary64 number nearest to a numeral. -/
def nearest (n : Numeral) : Binary64 :=
  .ofMagnitude? n.negative (Magnitude.ofDecimal? n.coefficient (power n))

/-- A named value behind its sign. -/
def named? (negative : Bool) (s : List Char) : Option Binary64 :=
  let name := s.map Char.toLower
  if name = ['i', 'n', 'f'] ∨ name = ['i', 'n', 'f', 'i', 'n', 'i', 't', 'y'] then
    some (.infinite negative)
  else if name = ['n', 'a', 'n'] then
    some .nan
  else
    none

/-- The number that a text stands for. -/
def read? (s : List Char) : Option Binary64 :=
  let (negative, s) := sign s
  match numeral? negative s with
  | some n => some (nearest n)
  | none => named? negative s

end ConfigGate.NumericText
