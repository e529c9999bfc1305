import Mathlib
import ConfigGate.Judgement
import ConfigGate.Proofs.Coercion

/-!
# Conformance

The verdict on a document against the checks of its fields. The violations of the verdict are those
of the fields that fail, in the order of the schema. Where none fails, the values line up with the
fields of a record, and a text that passed the literals of the schema is the name of a mode, so
that there is a record.
-/

namespace ConfigGate

open Json (Members)

/-! ### Fields -/

namespace Field

variable {document : Members} {field : Field}

/-- The field is absent, or its value cannot be coerced. -/
def Fails (document : Members) (field : Field) : Prop :=
  document.get? field.name = none ∨
    ∃ value e, document.get? field.name = some value ∧ field.coerce value = .error e

/-- The violation that a field contributes to the verdict. -/
def violation? (document : Members) (field : Field) : Option Violation :=
  match field.check document with
  | .ok _ => none
  | .error e => some e

theorem violation?_eq_some_iff {e : Violation} :
    field.violation? document = some e ↔ field.check document = .error e := by
  unfold violation?
  split <;> simp [*]

theorem violation?_eq_none_iff :
    field.violation? document = none ↔ ∃ value, field.check document = .ok value := by
  unfold violation?
  split <;> simp [*]

theorem fails_iff_check : field.Fails document ↔ ∃ e, field.check document = .error e := by
  unfold Fails check
  cases document.get? field.name with
  | none => simp
  | some value => simp

theorem fails_iff_violation? : field.Fails document ↔ ∃ e, field.violation? document = some e := by
  simp only [fails_iff_check, violation?_eq_some_iff]

theorem coerce_path {value : Json} {e : Violation} (h : field.coerce value = .error e) :
    e.path = [field.name] := by
  unfold coerce at h
  split at h
  · exact Coercion.uuid_path (Except.map_eq_error_iff.1 h)
  · exact Coercion.moment_path (Except.map_eq_error_iff.1 h)
  · exact Coercion.number_path (Except.map_eq_error_iff.1 h)
  · exact Coercion.literal_path (Except.map_eq_error_iff.1 h)

theorem check_path {e : Violation} (h : field.check document = .error e) :
    e.path = [field.name] := by
  unfold check at h
  split at h
  · exact coerce_path h
  · cases h; rfl

end Field

theorem schema_names_nodup : (schema.map fun field => [field.name]).Nodup := by decide

/-! ### Separating values from violations -/

theorem partitionResults_snd (results : List (Except Violation Coerced)) :
    (partitionResults results).2 =
      results.filterMap fun r => match r with | .ok _ => none | .error e => some e := by
  induction results with
  | nil => rfl
  | cons r rest ih => cases r <;> simp [partitionResults, ih]

theorem partitionResults_map_ok (values : List Coerced) :
    partitionResults (values.map .ok) = (values, []) := by
  induction values with
  | nil => rfl
  | cons value rest ih => simp [partitionResults, ih]

/-- Results without a violation are all values. -/
theorem map_ok_of_no_violation (document : Members) (fields : List Field)
    (h : ∀ field ∈ fields, field.violation? document = none) :
    ∃ values : List Coerced, fields.map (·.check document) = values.map .ok := by
  induction fields with
  | nil => exact ⟨[], rfl⟩
  | cons field rest ih =>
    obtain ⟨value, hv⟩ := Field.violation?_eq_none_iff.1 (h field (by simp))
    obtain ⟨values, hvs⟩ := ih fun f hf => h f (by simp [hf])
    exact ⟨value :: values, by simp [hv, hvs]⟩

/-! ### Records -/

/-- The checks of a document gave exactly the values of `r`: numbers in their ranges, and for the
mode the text that the document holds. -/
structure Record.Holds (document : Members) (r : Record) : Prop where
  values : schema.map (·.check document) =
    [.ok (.uuid r.id), .ok (.moment r.timestamp), .ok (.number r.temperature),
      .ok (.number r.pressure), .ok (.text r.mode.name)]
  temperature : r.temperature.Between (-50) 150
  pressure : r.pressure.Between 800 1200
  mode : document.get? "mode" = some (.string r.mode.name)

theorem Mode.ofName?_name (m : Mode) : ofName? m.name = some m := by cases m <;> rfl

/-- The literals of the schema are the names of the modes. -/
theorem Mode.exists_name {s : String} (h : s ∈ ["AUTO", "MANUAL"]) : ∃ m : Mode, s = m.name := by
  rcases List.mem_pair.1 h with rfl | rfl
  · exact ⟨.auto, rfl⟩
  · exact ⟨.manual, rfl⟩

theorem Record.ofCoerced?_values (r : Record) :
    ofCoerced? [.uuid r.id, .moment r.timestamp, .number r.temperature, .number r.pressure,
      .text r.mode.name] = some r := by
  rw [ofCoerced?, Mode.ofName?_name]
  rfl

section
variable {document : Members} {name : String} {c : Coerced}

theorem Field.check_eq_ok_iff {field : Field} :
    field.check document = .ok c ↔
      ∃ value, document.get? field.name = some value ∧ field.coerce value = .ok c := by
  unfold Field.check
  cases document.get? field.name with
  | none => simp
  | some value => simp

theorem Field.check_uuid (h : Field.check document ⟨name, .uuid⟩ = .ok c) :
    ∃ u, c = .uuid u := by
  obtain ⟨value, -, hc⟩ := Field.check_eq_ok_iff.1 h
  obtain ⟨u, -, rfl⟩ := Except.map_eq_ok_iff.1 hc
  exact ⟨u, rfl⟩

theorem Field.check_moment (h : Field.check document ⟨name, .moment⟩ = .ok c) :
    ∃ m, c = .moment m := by
  obtain ⟨value, -, hc⟩ := Field.check_eq_ok_iff.1 h
  obtain ⟨m, -, rfl⟩ := Except.map_eq_ok_iff.1 hc
  exact ⟨m, rfl⟩

theorem Field.check_number {ge le : Int32} (h : Field.check document ⟨name, .number ge le⟩ = .ok c) :
    ∃ x, c = .number x ∧ x.Between ge.toInt le.toInt := by
  obtain ⟨value, -, hc⟩ := Field.check_eq_ok_iff.1 h
  obtain ⟨x, hx, rfl⟩ := Except.map_eq_ok_iff.1 hc
  exact ⟨x, rfl, (Coercion.number_eq_ok_iff.1 hx).2⟩

theorem Field.check_literal {pattern : String} {literals : List String}
    (h : Field.check document ⟨name, .literal pattern literals⟩ = .ok c) :
    ∃ s ∈ literals, c = .text s ∧ document.get? name = some (.string s) := by
  obtain ⟨value, hv, hc⟩ := Field.check_eq_ok_iff.1 h
  obtain ⟨s, hs, rfl⟩ := Except.map_eq_ok_iff.1 hc
  obtain ⟨rfl, hmem⟩ := Coercion.literal_eq_ok_iff.1 hs
  exact ⟨s, hmem, rfl, hv⟩

end

/-- Values for all fields make a record. -/
theorem Record.exists_holds {document : Members} {values : List Coerced}
    (h : schema.map (·.check document) = values.map .ok) :
    ∃ r : Record, ofCoerced? values = some r ∧ r.Holds document := by
  simp only [schema, List.map_cons, List.map_nil] at h
  obtain ⟨v₁, values, rfl, h₁, h⟩ := List.map_eq_cons_iff.1 h.symm
  obtain ⟨v₂, values, rfl, h₂, h⟩ := List.map_eq_cons_iff.1 h
  obtain ⟨v₃, values, rfl, h₃, h⟩ := List.map_eq_cons_iff.1 h
  obtain ⟨v₄, values, rfl, h₄, h⟩ := List.map_eq_cons_iff.1 h
  obtain ⟨v₅, values, rfl, h₅, h⟩ := List.map_eq_cons_iff.1 h
  obtain rfl := List.map_eq_nil_iff.1 h
  obtain ⟨u, rfl⟩ := Field.check_uuid h₁.symm
  obtain ⟨m, rfl⟩ := Field.check_moment h₂.symm
  obtain ⟨x, rfl, hx⟩ := Field.check_number h₃.symm
  obtain ⟨y, rfl, hy⟩ := Field.check_number h₄.symm
  obtain ⟨s, hs, rfl, hd⟩ := Field.check_literal h₅.symm
  obtain ⟨mode, rfl⟩ := Mode.exists_name hs
  refine ⟨⟨u, m, x, y, mode⟩, ofCoerced?_values ⟨u, m, x, y, mode⟩, ?_, hx, hy, hd⟩
  simp only [schema, List.map_cons, List.map_nil, h₁, h₂, h₃, h₄, h₅]

/-! ### Verdicts -/

namespace Verdict

variable (document : Members)

theorem violations_ofDocument :
    (ofDocument document).violations = schema.filterMap (·.violation? document) := by
  have hsnd : (partitionResults (schema.map (·.check document))).2 =
      schema.filterMap (·.violation? document) := by
    rw [partitionResults_snd, List.filterMap_map]
    rfl
  rw [← hsnd, ofDocument]
  generalize partitionResults (schema.map (·.check document)) = parts
  obtain ⟨values, violations⟩ := parts
  dsimp only
  split
  · next h =>
    split
    · exact h.symm
    · rfl
  · rfl

/-- A document of which no field fails has a record. -/
theorem ofDocument_of_no_violation (h : ∀ field ∈ schema, field.violation? document = none) :
    ∃ values r, schema.map (·.check document) = values.map .ok ∧
      Record.ofCoerced? values = some r ∧ ofDocument document = conforming r ∧
      r.Holds document := by
  obtain ⟨values, hvalues⟩ := map_ok_of_no_violation document schema h
  obtain ⟨r, hr, holds⟩ := Record.exists_holds hvalues
  refine ⟨values, r, hvalues, hr, ?_, holds⟩
  simp only [ofDocument, hvalues, partitionResults_map_ok, hr, if_true]

theorem ofDocument_of_violations (h : (ofDocument document).violations ≠ []) :
    ofDocument document = ofViolations (ofDocument document).violations := by
  unfold ofDocument at h ⊢
  dsimp only at h ⊢
  split
  · next hv =>
    rw [if_pos hv] at h
    split at h
    · exact absurd rfl h
    · exact absurd hv h
  · rfl

theorem violations_eq_nil_iff :
    (ofDocument document).violations = [] ↔ ∀ field ∈ schema, field.violation? document = none := by
  rw [violations_ofDocument, List.filterMap_eq_nil_iff]

theorem ok_iff_record_isSome :
    ((ofDocument document).ok = true ↔ (ofDocument document).violations = []) ∧
      ((ofDocument document).violations = [] ↔ (ofDocument document).record.isSome = true) := by
  by_cases h : (ofDocument document).violations = []
  · obtain ⟨-, r, -, -, hr, -⟩ :=
      ofDocument_of_no_violation document ((violations_eq_nil_iff document).1 h)
    rw [hr]
    exact ⟨⟨fun _ => rfl, fun _ => rfl⟩, fun _ => rfl, fun _ => rfl⟩
  · rw [ofDocument_of_violations document h]
    simp [ofViolations, h]

/-- Violations name fields of the schema in its order, each at most once. -/
theorem paths_sublist :
    ((ofDocument document).violations.map (·.path)).Sublist
      (schema.map fun field => [field.name]) := by
  rw [violations_ofDocument, List.map_filterMap]
  have hpath : ∀ field : Field, (field.violation? document).map (·.path) =
      (field.violation? document).bind fun _ => some [field.name] := by
    intro field
    cases h : field.violation? document with
    | none => rfl
    | some e => simp [Field.check_path (Field.violation?_eq_some_iff.1 h)]
  simp only [hpath]
  generalize schema = fields
  induction fields with
  | nil => exact List.Sublist.slnil
  | cons field rest ih =>
    cases h : field.violation? document with
    | none => simpa [h] using ih.cons [field.name]
    | some e => simpa [h] using ih.cons_cons [field.name]

/-- A field has a violation of its own exactly if it fails. -/
theorem exists_path_iff {field : Field} (hf : field ∈ schema) :
    (∃ e ∈ (ofDocument document).violations, e.path = [field.name]) ↔ field.Fails document := by
  rw [Field.fails_iff_violation?, violations_ofDocument]
  simp only [List.mem_filterMap]
  constructor
  · rintro ⟨e, ⟨g, hg, he⟩, hpath⟩
    have hname : [g.name] = [field.name] := by
      rw [← hpath, Field.check_path (Field.violation?_eq_some_iff.1 he)]
    rw [← List.inj_on_of_nodup_map schema_names_nodup hg hf hname]
    exact ⟨e, he⟩
  · rintro ⟨e, he⟩
    exact ⟨e, ⟨field, hf, he⟩, Field.check_path (Field.violation?_eq_some_iff.1 he)⟩

/-- The verdict on a document: it passes exactly if there are no violations, and then has a record;
its violations are those of the fields that fail, in the order of the schema; and a document of
which no field fails always has a record, which holds the coerced values. -/
theorem ofDocument_collects (document : Members) :
    let v := ofDocument document
    ((v.ok = true ↔ v.violations = []) ∧ (v.violations = [] ↔ v.record.isSome = true)) ∧
    (v.violations = schema.filterMap (·.violation? document) ∧
      (v.violations.map (·.path)).Sublist (schema.map fun field => [field.name]) ∧
      (v.violations.map (·.path)).Nodup ∧
      ∀ field ∈ schema,
        (∃ e ∈ v.violations, e.path = [field.name]) ↔ field.Fails document) ∧
    ((∀ field ∈ schema, ¬ field.Fails document) →
      ∃ values r, schema.map (·.check document) = values.map .ok ∧
        Record.ofCoerced? values = some r ∧ v = conforming r ∧ r.Holds document) := by
  refine ⟨ok_iff_record_isSome document, ⟨violations_ofDocument document, paths_sublist document,
    (paths_sublist document).nodup schema_names_nodup, fun field => exists_path_iff document⟩, ?_⟩
  intro h
  refine ofDocument_of_no_violation document fun field hf => ?_
  rw [Option.eq_none_iff_forall_not_mem]
  exact fun e he => h field hf (Field.fails_iff_violation?.2 ⟨e, he⟩)

end Verdict

end ConfigGate
