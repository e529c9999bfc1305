import ConfigGate.Coercion
import ConfigGate.Failure
import ConfigGate.Json.Parse
import ConfigGate.Verdict

/-!
# Judgement

A document is checked field by field in the order of the schema, and every field contributes its
coerced value or one violation. Members that the schema does not name are ignored.
-/

namespace ConfigGate

/-- The value of a field after coercion. -/
inductive Coerced where
  | uuid (u : Uuid)
  | moment (m : Moment)
  | number (x : Binary64)
  | text (s : String)

/-- The coerced value of a value for a field, or its violation. -/
def Field.coerce (field : Field) (value : Json) : Except Violation Coerced :=
  match field.requirement with
  | .uuid => (Coercion.uuid field.name value).map .uuid
  | .moment => (Coercion.moment field.name value).map .moment
  | .number ge le => (Coercion.number field.name value ge le).map .number
  | .literal pattern literals =>
    (Coercion.literal field.name value pattern literals).map .text

/-- What a field contributes to the verdict on a document. -/
def Field.check (document : Json.Members) (field : Field) : Except Violation Coerced :=
  match document.get? field.name with
  | some value => field.coerce value
  | none => .error (.ofField .missing field.name "Field required" (.object document))

/-- The record of values coerced in the order of the schema. -/
def Record.ofCoerced? : List Coerced → Option Record
  | [.uuid id, .moment timestamp, .number temperature, .number pressure, .text mode] =>
    (Mode.ofName? mode).map fun mode => ⟨id, timestamp, temperature, pressure, mode⟩
  | _ => none

/-- Separates values from violations, both in order. -/
def partitionResults : List (Except Violation Coerced) → List Coerced × List Violation
  | [] => ([], [])
  | .ok value :: rest =>
    let (values, violations) := partitionResults rest
    (value :: values, violations)
  | .error violation :: rest =>
    let (values, violations) := partitionResults rest
    (values, violation :: violations)

/-- The verdict on a document. -/
def Verdict.ofDocument (document : Json.Members) : Verdict :=
  let (values, violations) := partitionResults (schema.map (·.check document))
  if violations = [] then
    match Record.ofCoerced? values with
    | some record => .conforming record
    | none => .ofViolations violations
  else
    .ofViolations violations

/-- The verdict on the text of a document. -/
def judge (text : List Char) : Except Failure Verdict :=
  match Json.parse text with
  | .error fault => .error (.malformed (fault.diagnosis text))
  | .ok (.object document) => .ok (.ofDocument document)
  | .ok value => .error (.notAnObject value.typeName)

end ConfigGate
