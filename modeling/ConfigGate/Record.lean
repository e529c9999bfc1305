import ConfigGate.Json.Write
import ConfigGate.Moment.Basic
import ConfigGate.Uuid

/-!
# Records

The typed form of a document that conforms, and its normalized JSON text.
-/

namespace ConfigGate

inductive Mode where
  | auto
  | manual
deriving DecidableEq

namespace Mode

def name : Mode → String
  | auto => "AUTO"
  | manual => "MANUAL"

/-- The mode with exactly this name. -/
def ofName? (s : String) : Option Mode :=
  if s = "AUTO" then some auto else if s = "MANUAL" then some manual else none

end Mode

structure Record where
  id : Uuid
  timestamp : Moment
  temperature : Binary64
  pressure : Binary64
  mode : Mode
deriving DecidableEq

/-- A number as a JSON value. What is not finite has none and becomes null. -/
def Binary64.toJson : Binary64 → Json
  | finite s x => .number (.float s x)
  | _ => .null

namespace Record

/-- Compact, and floats with the least of text. -/
def style : Json.Style where
  comma := [',']
  colon := [':']
  float :=
    { plainFrom := -5
      plainBelow := 16
      exponentPlus := false
      exponentWidth := 1
      tie := .even }

def toJson (r : Record) : Json :=
  .object
    [("id", .string (String.ofList r.id.text)),
      ("timestamp", .string (String.ofList r.timestamp.text)),
      ("temperature", r.temperature.toJson),
      ("pressure", r.pressure.toJson),
      ("mode", .string r.mode.name)]

/-- The normalized text of a record. -/
def text (r : Record) : List Char := r.toJson.write style

end Record

end ConfigGate
