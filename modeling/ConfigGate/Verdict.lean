import ConfigGate.Record
import ConfigGate.Violation

/-!
# Verdicts

The result for one document: the violations found, or the record it stands for. A verdict is written
as one line of JSON, in which the record does not appear.
-/

namespace ConfigGate

structure Verdict where
  ok : Bool
  violations : List Violation
  record : Option Record

namespace Verdict

/-- A verdict on violations, which passes if there are none. -/
def ofViolations (violations : List Violation) : Verdict := ⟨violations.isEmpty, violations, none⟩

/-- A verdict on a document that conforms. -/
def conforming (record : Record) : Verdict := ⟨true, [], some record⟩

def toJson (v : Verdict) : Json :=
  .object [("ok", .bool v.ok), ("errors", .array (v.violations.map Violation.toJson))]

/-- One blank behind commas and colons. Floats are positional from 10^-4 to below 10^16. -/
def style : Json.Style where
  comma := [',', ' ']
  colon := [':', ' ']
  float :=
    { plainFrom := -4
      plainBelow := 16
      exponentPlus := true
      exponentWidth := 2
      tie := .up }

/-- The fragments of the line of a verdict. -/
def fragments (v : Verdict) : List Json.Fragment := Json.Write.value style v.toJson ++ [['\n']]

/-- The line of a verdict, with the newline at its end. -/
def line (v : Verdict) : List Char := v.fragments.flatten

end Verdict

/-! ### Reports -/

/-- A step in building a list of violations. -/
inductive Report.Step where
  /-- Appends a violation. -/
  | append (v : Violation)
  /-- Adds to the context of the last violation. -/
  | context (key : String) (value : Json)

namespace Report

/-- Applies a function to the last element. -/
def modifyLast {α : Type} (f : α → α) : List α → List α
  | [] => []
  | [x] => [f x]
  | x :: y :: xs => x :: modifyLast f (y :: xs)

def step (violations : List Violation) : Step → List Violation
  | .append v => violations ++ [v]
  | .context key value => modifyLast (·.withContext key value) violations

/-- The violations before the first step and after every step. -/
def history (violations : List Violation) : List Step → List (List Violation)
  | [] => [violations]
  | s :: rest => violations :: history (step violations s) rest

end Report

end ConfigGate
