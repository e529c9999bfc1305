import ConfigGate.Decimal.Layout
import ConfigGate.Json.Basic
import ConfigGate.Text.Bytes

/-!
# Writing JSON

A value is written as a list of fragments, the pieces handed to the output one after the other. The
result is ASCII: every other character of a string becomes one or two `\u` units. A `Style` has the
separators and the layout of floats.
-/

namespace ConfigGate.Json

/-- A piece of output that is written at once. -/
abbrev Fragment := List Char

structure Style where
  comma : Fragment
  colon : Fragment
  float : Layout

namespace Write

/-! ### Strings -/

/-- Whether a character cannot stand in a string as it is, whatever the output's alphabet. -/
def isSpecial (c : Char) : Bool := c = '"' ∨ c = '\\' ∨ c < ' '

/-- A `\u` unit. -/
def hexUnit (u : Nat) : Fragment := '\\' :: 'u' :: hexText 4 u

/-- The escape of a special character. -/
def special (c : Char) : Fragment :=
  match c with
  | '"' => ['\\', '"']
  | '\\' => ['\\', '\\']
  | '\x08' => ['\\', 'b']
  | '\x0c' => ['\\', 'f']
  | '\n' => ['\\', 'n']
  | '\r' => ['\\', 'r']
  | '\t' => ['\\', 't']
  | c => hexUnit c.toNat

/-- The UTF-16 units of a character. -/
def units (c : Char) : List Nat :=
  if c.toNat < 0x10000 then [c.toNat]
  else [0xd800 + (c.toNat - 0x10000) / 0x400, 0xdc00 + (c.toNat - 0x10000) % 0x400]

/-- A stretch of a string: a special character, or a run without any. -/
inductive Stretch where
  | special (c : Char)
  | run (cs : List Char)

/-- Puts a character that is not special in front of the stretches of a string. -/
def Stretch.cons (c : Char) : List Stretch → List Stretch
  | run cs :: rest => run (c :: cs) :: rest
  | rest => run [c] :: rest

/-- Cuts a string at its special characters. -/
def stretches : List Char → List Stretch
  | [] => []
  | c :: s => if isSpecial c then .special c :: stretches s else Stretch.cons c (stretches s)

/-- A piece of a run: bytes of it as they are, or one unit of a character outside ASCII. -/
inductive Piece where
  | bytes (start stop : Nat)
  | unit (u : Nat)

/-- The pieces of a run of which `s` is left, at byte `pos`, and the bytes from `start` on are not
written yet. -/
def pieces (start pos : Nat) : (s : List Char) → List Piece
  | [] => [.bytes start pos]
  | c :: s =>
    let next := pos + c.utf8Size
    if c.toNat < 128 then pieces start next s
    else .bytes start pos :: (units c).map .unit ++ pieces next next s

/-- The fragment of a piece of `run`. -/
def Piece.fragment (run : List Char) : Piece → Fragment
  | bytes start stop => Text.slice start stop run
  | unit u => hexUnit u

/-- The fragments of a stretch. -/
def Stretch.fragments : Stretch → List Fragment
  | special c => [Write.special c]
  | run cs => (pieces 0 0 cs).map (·.fragment cs)

/-- The fragments of a string with its quotes. -/
def string (s : String) : List Fragment :=
  ['"'] :: (stretches s.toList).flatMap Stretch.fragments ++ [['"']]

/-! ### Values -/

def number (style : Style) : Number → Fragment
  | .integer i _ => integerText i
  | .float s x => x.render style.float s

mutual

/-- The fragments of a value. -/
def value (style : Style) : Json → List Fragment
  | .null => [['n', 'u', 'l', 'l']]
  | .bool true => [['t', 'r', 'u', 'e']]
  | .bool false => [['f', 'a', 'l', 's', 'e']]
  | .number n => [number style n]
  | .string s => string s
  | .array xs => ['['] :: elements style xs ++ [[']']]
  | .object ms => ['{'] :: members style ms ++ [['}']]

def elements (style : Style) : List Json → List Fragment
  | [] => []
  | x :: xs => value style x ++ moreElements style xs

/-- Elements behind another one. -/
def moreElements (style : Style) : List Json → List Fragment
  | [] => []
  | x :: xs => style.comma :: value style x ++ moreElements style xs

def members (style : Style) : List (String × Json) → List Fragment
  | [] => []
  | (k, v) :: ms => string k ++ style.colon :: value style v ++ moreMembers style ms

/-- Members behind another one. -/
def moreMembers (style : Style) : List (String × Json) → List Fragment
  | [] => []
  | (k, v) :: ms =>
    style.comma :: string k ++ style.colon :: value style v ++ moreMembers style ms

end

end Write

/-- A value as one text. -/
def write (style : Style) (x : Json) : List Char := (Write.value style x).flatten

end ConfigGate.Json
