import ConfigGate.Digits
import ConfigGate.Text.Hidden

/-!
# Text made visible

How a byte or a character is shown inside a message: printable ones as they are, quotes and
backslashes behind a backslash, and all others by an escape.
-/

namespace ConfigGate.Text

/-- An ASCII code that has a form of its own in messages. -/
def plainForm? (n : Nat) : Option (List Char) :=
  if n = '\t'.toNat then some ['\\', 't']
  else if n = '\r'.toNat then some ['\\', 'r']
  else if n = '\n'.toNat then some ['\\', 'n']
  else if n = '"'.toNat then some ['\\', '"']
  else if n = '\x27'.toNat then some ['\\', '\x27']
  else if n = '\\'.toNat then some ['\\', '\\']
  else if 0x20 ≤ n ∧ n < 0x7f then some [Char.ofNat n]
  else none

/-- A byte, with its code in upper case where it cannot be shown. -/
def visibleByte (b : UInt8) : List Char :=
  match plainForm? b.toNat with
  | some form => form
  | none => '\\' :: 'x' :: (Digits.fixed Nibble.base_pos 2 b.toNat).map Nibble.upperChar

/-- The hexadecimal digits of `n` without leading zeros. -/
def minimalHex (n : Nat) : List Char :=
  if n < 16 then hexText 1 n else minimalHex (n / 16) ++ hexText 1 n
termination_by n

/-- A character, with its code in lower case where it cannot be shown. -/
def visibleChar (c : Char) : List Char :=
  match plainForm? c.toNat with
  | some form => form
  | none =>
    if c.toNat = 0 then ['\\', '0']
    else if c.toNat < 0x80 then '\\' :: 'x' :: hexText 2 c.toNat
    else if isHidden c then ['\\', 'u', '{'] ++ minimalHex c.toNat ++ ['}']
    else [c]

end ConfigGate.Text
