/-!
# The schema

The five required fields of a document in the order in which they are checked.
-/

namespace ConfigGate

/-- What a field's value must be. -/
inductive Requirement where
  | uuid
  /-- A date and time, or a unix number. -/
  | moment
  /-- A number from `ge` to `le`. -/
  | number (ge le : Int32)
  /-- One of `literals`, of which `pattern` is the alternation. -/
  | literal (pattern : String) (literals : List String)
deriving DecidableEq

structure Field where
  name : String
  requirement : Requirement
deriving DecidableEq

def schema : List Field :=
  [⟨"id", .uuid⟩,
    ⟨"timestamp", .moment⟩,
    ⟨"temperature", .number (-50) 150⟩,
    ⟨"pressure", .number 800 1200⟩,
    ⟨"mode", .literal "^(AUTO|MANUAL)$" ["AUTO", "MANUAL"]⟩]

end ConfigGate
