/-!
# Digits

A numeral in base `b` is a list of `Fin b`, most significant digit first. `value` reads it,
`fixed` writes exactly `w` digits and `decimal` writes as many as a number needs.
-/

namespace ConfigGate

/-- A decimal digit. -/
abbrev Digit := Fin 10

namespace Digit

theorem base_pos : 0 < 10 := by decide

def zero : Digit := ⟨0, base_pos⟩

def char (d : Digit) : Char := Char.ofNat ('0'.toNat + d.val)

def ofChar? (c : Char) : Option Digit :=
  if h : '0'.toNat ≤ c.toNat ∧ c.toNat < '0'.toNat + 10 then
    some ⟨c.toNat - '0'.toNat, by omega⟩
  else
    none

end Digit

/-- A hexadecimal digit. -/
abbrev Nibble := Fin 16

namespace Nibble

theorem base_pos : 0 < 16 := by decide

/-- The lower-case character of a nibble. -/
def char (d : Nibble) : Char :=
  if d.val < 10 then Char.ofNat ('0'.toNat + d.val) else Char.ofNat ('a'.toNat + (d.val - 10))

/-- The upper-case character of a nibble. -/
def upperChar (d : Nibble) : Char :=
  if d.val < 10 then Char.ofNat ('0'.toNat + d.val) else Char.ofNat ('A'.toNat + (d.val - 10))

/-- Both letter cases are read. -/
def ofChar? (c : Char) : Option Nibble :=
  if h : '0'.toNat ≤ c.toNat ∧ c.toNat < '0'.toNat + 10 then
    some ⟨c.toNat - '0'.toNat, by omega⟩
  else if h : 'a'.toNat ≤ c.toNat ∧ c.toNat < 'a'.toNat + 6 then
    some ⟨c.toNat - 'a'.toNat + 10, by omega⟩
  else if h : 'A'.toNat ≤ c.toNat ∧ c.toNat < 'A'.toNat + 6 then
    some ⟨c.toNat - 'A'.toNat + 10, by omega⟩
  else
    none

end Nibble

namespace Digits

variable {b : Nat}

/-- The number that a list of digits spells. -/
def value (ds : List (Fin b)) : Nat := ds.foldl (fun n d => b * n + d.val) 0

/-- The last digit of `n`. -/
def last (pos : 0 < b) (n : Nat) : Fin b := ⟨n % b, Nat.mod_lt n pos⟩

/-- The last `w` digits of `n`, with leading zeros. -/
def fixed (pos : 0 < b) : (w n : Nat) → List (Fin b)
  | 0, _ => []
  | w + 1, n => fixed pos w (n / b) ++ [last pos n]

/-- The decimal digits of `n` without leading zeros. -/
def decimal (n : Nat) : List Digit :=
  if n < 10 then [last Digit.base_pos n] else decimal (n / 10) ++ [last Digit.base_pos n]
termination_by n

/-- Drops zeros at the end. -/
def dropZeros (ds : List (Fin b)) : List (Fin b) := (ds.reverse.dropWhile (·.val = 0)).reverse

/-- The least number of digits that hold `n`: zero needs none. -/
def count (n : Nat) : Nat := if n = 0 then 0 else count (n / 10) + 1
termination_by n

end Digits

/-- `n` in decimal. -/
def decimalText (n : Nat) : List Char := (Digits.decimal n).map Digit.char

/-- `i` in decimal, a minus sign before a negative number. -/
def integerText (i : Int) : List Char :=
  if i < 0 then '-' :: decimalText i.natAbs else decimalText i.natAbs

/-- `n` in decimal, filled with zeros up to `w` digits and never cut. -/
def paddedText (w n : Nat) : List Char :=
  List.replicate (w - (Digits.decimal n).length) '0' ++ decimalText n

/-- The last `w` hexadecimal digits of `n`, in lower case. -/
def hexText (w n : Nat) : List Char := (Digits.fixed Nibble.base_pos w n).map Nibble.char

end ConfigGate
