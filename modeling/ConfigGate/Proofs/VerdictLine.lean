import Mathlib
import ConfigGate.Verdict
import ConfigGate.Proofs.Json.Write

/-!
# The line of a verdict

The line is read back as the object that was written: `ok` and `errors`, and for each violation its
kind, path, message and input, with a context where there is one. The record leaves no trace.
-/

namespace ConfigGate

open Json (Denotes FloatFree DistinctKeys)

/-- The values of a violation that are not of its own making: the input and the context. -/
def Violation.echoes (e : Violation) : List Json := e.input :: e.context.toList.map .object

namespace Violation

theorem floatFree_toJson {e : Violation} (h : ∀ x ∈ e.echoes, FloatFree x) :
    FloatFree e.toJson := by
  obtain ⟨kind, path, message, input, _ | context⟩ := e <;>
    simpa [echoes, toJson] using h

theorem distinctKeys_toJson {e : Violation} (h : ∀ x ∈ e.echoes, DistinctKeys x) :
    DistinctKeys e.toJson := by
  obtain ⟨kind, path, message, input, _ | context⟩ := e <;>
    simpa [echoes, toJson, Json.Members.keys] using h

end Violation

namespace Verdict

theorem style_isSpaced : style.IsSpaced :=
  ⟨⟨[' '], by simp [Json.Grammar.Blanks, Json.isBlank], rfl⟩,
    ⟨[' '], by simp [Json.Grammar.Blanks, Json.isBlank], rfl⟩⟩

theorem line_eq (v : Verdict) : v.line = v.toJson.write style ++ ['\n'] := by
  simp [line, fragments, Json.write]

theorem denotes_line {v : Verdict} (hf : ∀ e ∈ v.violations, ∀ x ∈ e.echoes, FloatFree x)
    (hk : ∀ e ∈ v.violations, ∀ x ∈ e.echoes, DistinctKeys x)
    (hd : v.toJson.depth ≤ 127) : Denotes v.line v.toJson := by
  have hfloat : FloatFree v.toJson := by
    simpa [toJson] using fun e he => Violation.floatFree_toJson (hf e he)
  have hkeys : DistinctKeys v.toJson := by
    simpa [toJson, Json.Members.keys] using fun e he => Violation.distinctKeys_toJson (hk e he)
  have h := Json.Write.value_write style_isSpaced hfloat hkeys hd
  have hline : v.line = [] ++ (v.toJson.write style ++ ['\n']) := v.line_eq
  rw [hline]
  exact .mk .nil h (by simp [Json.Grammar.Blanks, Json.isBlank])

/-- Reading undoes writing: the line of a verdict whose values have no float and no repeated key is
read as the object of its parts, and is the same whatever the record. -/
theorem parse_line (v : Verdict) (hfloat : ∀ e ∈ v.violations, ∀ x ∈ e.echoes, FloatFree x)
    (hkeys : ∀ e ∈ v.violations, ∀ x ∈ e.echoes, DistinctKeys x)
    (hdepth : v.toJson.depth ≤ 127) :
    Json.parse v.line = .ok (.object
      [("ok", .bool v.ok),
        ("errors", .array (v.violations.map fun e => .object
          ([("type", .string e.kind.name),
            ("loc", .array (e.path.map .string)),
            ("msg", .string e.message),
            ("input", e.input)] ++
            match e.context with
            | none => []
            | some context => [("ctx", .object context)])))]) ∧
      ∀ record, ({ v with record } : Verdict).line = v.line := by
  refine ⟨(Json.parse_of_denotes (denotes_line hfloat hkeys hdepth)).trans ?_, fun record => rfl⟩
  have herrors : v.violations.map Violation.toJson = v.violations.map fun e => .object
      ([("type", .string e.kind.name), ("loc", .array (e.path.map .string)),
        ("msg", .string e.message), ("input", e.input)] ++
        match e.context with
        | none => []
        | some context => [("ctx", .object context)]) := by
    refine List.map_congr_left fun e _ => ?_
    rcases e with ⟨kind, path, message, input, _ | context⟩ <;> rfl
  rw [toJson, herrors]

/-- The least signed and the greatest unsigned integer, a nested input, a character outside the
basic plane in a key, and violations with and without a context. -/
theorem parse_line_nested :
    let input : Json := .object
      [("😀\"", .array [.number (.integer (-0x8000000000000000) (by decide)), .object []]),
        ("\n", .number (.integer 0xffffffffffffffff (by decide)))]
    Json.parse (line ⟨false,
        [⟨.uuidParsing, ["id", "é"], "\t", input, some [("error", .array [])]⟩,
          ⟨.missing, ["mode"], "", input, none⟩], none⟩) = .ok (.object
      [("ok", .bool false),
        ("errors", .array
          [.object [("type", .string "uuid_parsing"), ("loc", .array [.string "id", .string "é"]),
            ("msg", .string "\t"), ("input", input), ("ctx", .object [("error", .array [])])],
          .object [("type", .string "missing"), ("loc", .array [.string "mode"]),
            ("msg", .string ""), ("input", input)]])]) :=
  (parse_line _ (by simp [Violation.echoes]) (by simp [Violation.echoes, Json.Members.keys])
    (by decide)).1

end Verdict

end ConfigGate
