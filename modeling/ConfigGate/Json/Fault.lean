import ConfigGate.Digits
import ConfigGate.Text.Bytes

/-!
# Faults of a JSON text

A fault has a cause and a place. The place is kept as the number of bytes that come after it, so
that a reader needs nothing but the text in front of it to tell.
-/

namespace ConfigGate.Json

inductive Cause where
  | endInValue
  | endInString
  | endInList
  | endInObject
  | expectedValue
  | expectedWord
  | invalidNumber
  | numberOutOfRange
  | controlCharacter
  | invalidEscape
  | unfinishedPair
  | loneSurrogate
  | expectedListEnd
  | expectedObjectEnd
  | expectedColon
  | expectedKey
  | trailingComma
  | trailingCharacters
  | tooDeep
deriving DecidableEq

def Cause.text : Cause → String
  | endInValue => "EOF while parsing a value"
  | endInString => "EOF while parsing a string"
  | endInList => "EOF while parsing a list"
  | endInObject => "EOF while parsing an object"
  | expectedValue => "expected value"
  | expectedWord => "expected ident"
  | invalidNumber => "invalid number"
  | numberOutOfRange => "number out of range"
  | controlCharacter => "control character (\\u0000-\\u001F) found while parsing a string"
  | invalidEscape => "invalid escape"
  | unfinishedPair => "unexpected end of hex escape"
  | loneSurrogate => "lone leading surrogate in hex escape"
  | expectedListEnd => "expected `,` or `]`"
  | expectedObjectEnd => "expected `,` or `\x7d`"
  | expectedColon => "expected `:`"
  | expectedKey => "key must be a string"
  | trailingComma => "trailing comma"
  | trailingCharacters => "trailing characters"
  | tooDeep => "recursion limit exceeded"

structure Fault where
  cause : Cause
  /-- The number of bytes of the text after the place of the fault. -/
  unread : Nat
deriving DecidableEq

namespace Fault

/-- A fault in front of `s`. -/
def before (cause : Cause) (s : List Char) : Fault := ⟨cause, Text.byteCount s⟩

/-- A fault at the first byte of `s`, which is counted as read. -/
def onFirst (cause : Cause) (s : List Char) : Fault := ⟨cause, Text.byteCount s - 1⟩

/-- A fault at the end of the text. -/
def atEnd (cause : Cause) : Fault := ⟨cause, 0⟩

/-- A fault where the text ends or goes on with a wrong character. -/
def expected (ended wrong : Cause) : List Char → Fault
  | [] => atEnd ended
  | c :: r => onFirst wrong (c :: r)

end Fault

/-- A place in a text, lines counted from one and columns in bytes. -/
structure Place where
  line : Nat
  column : Nat
deriving DecidableEq

/-- The place behind a stretch of bytes. -/
def Place.after (read : List UInt8) : Place where
  line := read.count 10 + 1
  column := (read.reverse.takeWhile (· ≠ 10)).length

/-- A fault as it is reported. -/
structure Diagnosis where
  cause : Cause
  place : Place
deriving DecidableEq

/-- The diagnosis of a fault in the text that it is about. -/
def Fault.diagnosis (fault : Fault) (text : List Char) : Diagnosis :=
  let bytes := Text.bytes text
  ⟨fault.cause, .after (bytes.take (bytes.length - fault.unread))⟩

def Diagnosis.message (d : Diagnosis) : List Char :=
  d.cause.text.toList ++ " at line ".toList ++ decimalText d.place.line ++
    " column ".toList ++ decimalText d.place.column

end ConfigGate.Json
