/-!
# Byte positions in text

Sizes and positions are counted in bytes of the UTF-8 form, also where text is held as a list of
characters.
-/

namespace ConfigGate.Text

/-- The number of bytes that `s` takes. -/
def byteCount : List Char → Nat
  | [] => 0
  | c :: s => c.utf8Size + byteCount s

/-- The bytes of `s`. -/
def bytes (s : List Char) : List UInt8 := s.flatMap String.utf8EncodeChar

/-- The first byte of a character. -/
def leadByte (c : Char) : UInt8 := (String.utf8EncodeChar c).headD 0

/-- The characters of `s` that start at byte `n` or later. -/
def dropBytes : (n : Nat) → List Char → List Char
  | 0, s => s
  | _ + 1, [] => []
  | n + 1, c :: s => dropBytes (n + 1 - c.utf8Size) s

/-- The characters of `s` that start before byte `n`. -/
def takeBytes : (n : Nat) → List Char → List Char
  | 0, _ => []
  | _ + 1, [] => []
  | n + 1, c :: s => c :: takeBytes (n + 1 - c.utf8Size) s

/-- The characters of `s` from byte `start` up to byte `stop`. -/
def slice (start stop : Nat) (s : List Char) : List Char :=
  takeBytes (stop - start) (dropBytes start s)

/-- Byte `n` of `s` is the start of a character or the end of `s`. -/
def IsBoundary (n : Nat) (s : List Char) : Prop := ∃ t, t <+: s ∧ byteCount t = n

end ConfigGate.Text
