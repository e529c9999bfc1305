import ConfigGate.Json.Fault

/-!
# Failures

Why there is no verdict on a document, or why it could not be written.
-/

namespace ConfigGate

/-- Why a document could not be read. -/
inductive ReadFault where
  /-- The source failed, with a text of its own. -/
  | source (reason : String)
  /-- The bytes are not UTF-8. -/
  | encoding
deriving DecidableEq

def ReadFault.reason : ReadFault → String
  | source reason => reason
  | encoding => "stream did not contain valid UTF-8"

inductive Failure where
  | unreadable (fault : ReadFault)
  | malformed (diagnosis : Json.Diagnosis)
  | notAnObject (typeName : String)
  | unwritable (reason : String)
deriving DecidableEq

def Failure.message : Failure → String
  | unreadable fault => "failed to read standard input: " ++ fault.reason
  | malformed diagnosis => "input is not valid JSON: " ++ String.ofList diagnosis.message
  | notAnObject typeName => "expected a JSON object, found " ++ typeName
  | unwritable reason => "failed to write result: " ++ reason

end ConfigGate
