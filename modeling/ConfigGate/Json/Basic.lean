import ConfigGate.Binary64.Basic

/-!
# JSON values

A number is an integer of 64 bits, signed or not, or a finite binary64 number. An object is a list
of members in the order of the text. `Members.insert` keeps the place of a key that is there already
and replaces its value.
-/

namespace ConfigGate

inductive Json.Number where
  | integer (value : Int) (fits : -0x8000000000000000 ≤ value ∧ value < 0x10000000000000000)
  | float (negative : Bool) (magnitude : Magnitude)
deriving DecidableEq

inductive Json where
  | null
  | bool (value : Bool)
  | number (value : Json.Number)
  | string (value : String)
  | array (elements : List Json)
  | object (members : List (String × Json))

namespace Json

/-- The nearest binary64 number. -/
def Number.toBinary64 : Number → Binary64
  | integer i _ => .ofMagnitude? (i < 0) (Magnitude.ofNat? i.natAbs)
  | float s x => .finite s x

theorem Number.fits_int32 (i : Int32) :
    -0x8000000000000000 ≤ i.toInt ∧ i.toInt < 0x10000000000000000 := by
  have := i.le_toInt
  have := i.toInt_lt
  omega

def Number.ofInt32 (i : Int32) : Number := integer i.toInt (fits_int32 i)

/-- A key with its value. -/
abbrev Member := String × Json

/-- The members of an object. -/
abbrev Members := List Member

namespace Members

def get? (key : String) : Members → Option Json
  | [] => none
  | (k, v) :: ms => if k = key then some v else get? key ms

/-- Replaces the value of `key` where it stands, or adds it at the end. -/
def insert (key : String) (value : Json) : Members → Members
  | [] => [(key, value)]
  | (k, v) :: ms => if k = key then (k, value) :: ms else (k, v) :: insert key value ms

/-- Every key at the place of its first occurrence, with the value of its last. -/
def ofList (ms : List Member) : Members := ms.foldl (fun acc m => insert m.1 m.2 acc) []

end Members

/-- The name of a value's type, with its article. -/
def typeName : Json → String
  | null => "null"
  | bool _ => "a boolean"
  | number _ => "a number"
  | string _ => "a string"
  | array _ => "an array"
  | object _ => "an object"

end Json

end ConfigGate
