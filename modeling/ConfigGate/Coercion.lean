import ConfigGate.Decimal.NumericText
import ConfigGate.Moment.Read
import ConfigGate.Schema
import ConfigGate.Text.Blank
import ConfigGate.Uuid
import ConfigGate.Violation

/-!
# Coercion

From a JSON value to a typed one, or to the violation of a field. Coercion is lax: text that spells
a number counts as one, booleans count as zero and one, and a moment may be a unix number. A value
of any other type is a violation of its own, before ranges and texts are looked at.
-/

namespace ConfigGate.Coercion

def uuid (field : String) (value : Json) : Except Violation Uuid :=
  match value with
  | .string s =>
    match Uuid.parse s.toList with
    | .ok u => .ok u
    | .error fault =>
      let reason := String.ofList fault.message
      .error ((Violation.ofField .uuidParsing field
        ("Input should be a valid UUID, " ++ reason) value).withContext "error" (.string reason))
  | _ =>
    .error (.ofField .uuidType field "UUID input should be a string, bytes or UUID object" value)

/-- The moment of a value of a suitable type. -/
def readMoment? : Json → Option (Except Moment.Fault Moment)
  | .string s => some (Moment.parse s.toList)
  | .number n => some (Moment.ofUnix n.toBinary64)
  | _ => none

def moment (field : String) (value : Json) : Except Violation Moment :=
  match readMoment? value with
  | some (.ok m) => .ok m
  | some (.error fault) =>
    let reason := String.ofList fault.message
    .error ((Violation.ofField .momentParsing field
      ("Input should be a valid datetime, " ++ reason) value).withContext "error" (.string reason))
  | none => .error (.ofField .momentType field "Input should be a valid datetime" value)

/-- The number of a value, before its range is looked at. -/
def readNumber (field : String) (value : Json) : Except Violation Binary64 :=
  match value with
  | .number n => .ok n.toBinary64
  | .bool b => .ok (.finite false (if b then .one else .zero))
  | .string s =>
    match NumericText.read? (Text.trim s.toList) with
    | some x => .ok x
    | none =>
      .error (.ofField .numberParsing field
        "Input should be a valid number, unable to parse string as a number" value)
  | _ => .error (.ofField .numberType field "Input should be a valid number" value)

/-- A number from `ge` to `le`. What is no number fails the lower bound. -/
def number (field : String) (value : Json) (ge le : Int32) : Except Violation Binary64 := do
  let x ← readNumber field value
  if x.isNaN || x.isBelow ge.toInt then
    .error ((Violation.ofField .greaterThanEqual field
      ("Input should be greater than or equal to " ++ String.ofList (integerText ge.toInt))
      value).withContext "ge" (.number (.ofInt32 ge)))
  else if x.isAbove le.toInt then
    .error ((Violation.ofField .lessThanEqual field
      ("Input should be less than or equal to " ++ String.ofList (integerText le.toInt))
      value).withContext "le" (.number (.ofInt32 le)))
  else
    .ok x

/-- A string that is one of `literals`. -/
def literal (field : String) (value : Json) (pattern : String) (literals : List String) :
    Except Violation String :=
  match value with
  | .string s =>
    if s ∈ literals then .ok s
    else
      .error ((Violation.ofField .patternMismatch field
        ("String should match pattern '" ++ pattern ++ "'") value).withContext "pattern"
        (.string pattern))
  | _ => .error (.ofField .stringType field "Input should be a valid string" value)

end ConfigGate.Coercion
