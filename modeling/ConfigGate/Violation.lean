import ConfigGate.Json.Basic

/-!
# Violations

What is wrong with one field of a document.
-/

namespace ConfigGate

namespace Violation

inductive Kind where
  | missing
  | uuidType
  | uuidParsing
  | momentType
  | momentParsing
  | numberType
  | numberParsing
  | greaterThanEqual
  | lessThanEqual
  | stringType
  | patternMismatch
deriving DecidableEq

def Kind.name : Kind → String
  | missing => "missing"
  | uuidType => "uuid_type"
  | uuidParsing => "uuid_parsing"
  | momentType => "datetime_type"
  | momentParsing => "datetime_parsing"
  | numberType => "float_type"
  | numberParsing => "float_parsing"
  | greaterThanEqual => "greater_than_equal"
  | lessThanEqual => "less_than_equal"
  | stringType => "string_type"
  | patternMismatch => "string_pattern_mismatch"

end Violation

structure Violation where
  kind : Violation.Kind
  /-- The keys that lead to the field. -/
  path : List String
  message : String
  /-- The value that is wrong, or the whole document where a field is missing. -/
  input : Json
  /-- The constraint that is violated, or the reason why a text cannot be read. -/
  context : Option Json.Members

namespace Violation

/-- A violation of one field, without context. -/
def ofField (kind : Kind) (field : String) (message : String) (input : Json) : Violation :=
  ⟨kind, [field], message, input, none⟩

/-- Adds an entry to the context, or replaces the one with the same key. -/
def withContext (v : Violation) (key : String) (value : Json) : Violation :=
  { v with context := some (Json.Members.insert key value (v.context.getD [])) }

def toJson (v : Violation) : Json :=
  .object
    ([("type", .string v.kind.name),
      ("loc", .array (v.path.map .string)),
      ("msg", .string v.message),
      ("input", v.input)] ++
      (v.context.elim [] fun context => [("ctx", .object context)]))

end Violation

end ConfigGate
