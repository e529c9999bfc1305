import Mathlib
import ConfigGate.Proofs.Conformance

/-!
# Locality

What a field adds to a verdict depends on the value of this field alone. Only a missing field looks
further: its violation echoes the whole document. Two documents that agree on the fields of the
schema therefore have the same verdict up to these echoes (`ofDocument_local`). The checks of the
two documents are related field by field (`Result.Agrees`), and the relation is carried through the
separation of values from violations.
-/

namespace ConfigGate

open Json (Members)

/-! ### Violations up to the echo of a missing field -/

/-- The violations differ in their inputs at most, and there only if a field is missing. -/
structure Violation.Agrees (e₁ e₂ : Violation) : Prop where
  rest : e₁ = { e₂ with input := e₁.input }
  input : e₁.kind ≠ .missing → e₁.input = e₂.input

namespace Violation.Agrees

theorem refl (e : Violation) : e.Agrees e := ⟨rfl, fun _ => rfl⟩

theorem missing (name message : String) (x y : Json) :
    (ofField .missing name message x).Agrees (ofField .missing name message y) :=
  ⟨rfl, fun h => absurd rfl h⟩

end Violation.Agrees

/-- Two results of one field: the same value, or violations that agree. -/
inductive Result.Agrees : Except Violation Coerced → Except Violation Coerced → Prop where
  | ok (c : Coerced) : Agrees (.ok c) (.ok c)
  | error {e₁ e₂ : Violation} (h : e₁.Agrees e₂) : Agrees (.error e₁) (.error e₂)

theorem Result.Agrees.refl (r : Except Violation Coerced) : Result.Agrees r r := by
  cases r with
  | ok c => exact .ok c
  | error e => exact .error (.refl e)

theorem partitionResults_agrees {rs₁ rs₂ : List (Except Violation Coerced)}
    (h : List.Forall₂ Result.Agrees rs₁ rs₂) :
    (partitionResults rs₁).1 = (partitionResults rs₂).1 ∧
      List.Forall₂ Violation.Agrees (partitionResults rs₁).2 (partitionResults rs₂).2 := by
  induction h with
  | nil => exact ⟨rfl, .nil⟩
  | cons hr _ ih =>
    obtain ⟨hvalues, hviolations⟩ := ih
    cases hr with
    | ok c => exact ⟨congrArg (c :: ·) hvalues, hviolations⟩
    | error he => exact ⟨hvalues, .cons he hviolations⟩

/-! ### One field in two documents -/

namespace Field

variable {d₁ d₂ document : Members} {field : Field}

theorem check_of_get? {value : Json} (h : document.get? field.name = some value) :
    field.check document = field.coerce value := by
  simp only [check, h]

theorem check_of_missing (h : document.get? field.name = none) :
    field.check document =
      .error (.ofField .missing field.name "Field required" (.object document)) := by
  simp only [check, h]

theorem check_agrees (h : d₁.get? field.name = d₂.get? field.name) :
    Result.Agrees (field.check d₁) (field.check d₂) := by
  cases h₂ : d₂.get? field.name with
  | none =>
    rw [check_of_missing (h.trans h₂), check_of_missing h₂]
    exact .error (.missing _ _ _ _)
  | some value =>
    rw [check_of_get? (h.trans h₂), check_of_get? h₂]
    exact .refl _

end Field

/-! ### The violations of a field -/

namespace Verdict

variable {d₁ d₂ document : Members} {field : Field}

/-- The violations that are about one field. -/
def against (v : Verdict) (name : String) : List Violation :=
  v.violations.filter (·.path = [name])

theorem filter_path_eq_nil {fields : List Field} {name : String}
    (h : [name] ∉ fields.map fun g => [g.name]) :
    (fields.filterMap (·.violation? document)).filter (·.path = [name]) = [] := by
  rw [List.filter_eq_nil_iff]
  intro e he hpath
  obtain ⟨g, hg, hge⟩ := List.mem_filterMap.1 he
  have hname : [g.name] = [name] := by
    rw [← Field.check_path (Field.violation?_eq_some_iff.1 hge)]
    exact of_decide_eq_true hpath
  exact h (List.mem_map.2 ⟨g, hg, hname⟩)

theorem filter_path_eq {fields : List Field} (hnd : (fields.map fun g => [g.name]).Nodup)
    (hf : field ∈ fields) :
    (fields.filterMap (·.violation? document)).filter (·.path = [field.name]) =
      (field.violation? document).toList := by
  obtain ⟨front, back, rfl⟩ := List.append_of_mem hf
  rw [List.map_append, List.map_cons, List.nodup_middle, List.nodup_cons, List.mem_append,
    not_or] at hnd
  have hcons : (field :: back).filterMap (·.violation? document) =
      (field.violation? document).toList ++ back.filterMap (·.violation? document) := by
    rw [List.filterMap_cons]
    cases field.violation? document <;> rfl
  rw [List.filterMap_append, List.filter_append, filter_path_eq_nil hnd.1.1, List.nil_append, hcons,
    List.filter_append, filter_path_eq_nil hnd.1.2, List.append_nil, List.filter_eq_self]
  intro e he
  exact decide_eq_true
    (Field.check_path (Field.violation?_eq_some_iff.1 (Option.mem_toList.1 he)))

theorem against_ofDocument (hf : field ∈ schema) :
    (ofDocument document).against field.name = (field.violation? document).toList := by
  rw [against, violations_ofDocument]
  exact filter_path_eq schema_names_nodup hf

theorem against_of_ok {c : Coerced} (hf : field ∈ schema) (h : field.check document = .ok c) :
    (ofDocument document).against field.name = [] := by
  rw [against_ofDocument hf, Field.violation?_eq_none_iff.2 ⟨c, h⟩]
  rfl

theorem against_of_error {e : Violation} (hf : field ∈ schema)
    (h : field.check document = .error e) : (ofDocument document).against field.name = [e] := by
  rw [against_ofDocument hf, Field.violation?_eq_some_iff.2 h]
  rfl

/-! ### Two documents -/

theorem ofDocument_agrees (h : ∀ field ∈ schema, d₁.get? field.name = d₂.get? field.name) :
    (ofDocument d₁).ok = (ofDocument d₂).ok ∧ (ofDocument d₁).record = (ofDocument d₂).record ∧
      List.Forall₂ Violation.Agrees (ofDocument d₁).violations (ofDocument d₂).violations := by
  have hresults :
      List.Forall₂ Result.Agrees (schema.map (·.check d₁)) (schema.map (·.check d₂)) := by
    rw [List.forall₂_map_left_iff, List.forall₂_map_right_iff, List.forall₂_same]
    exact fun field hf => Field.check_agrees (h field hf)
  obtain ⟨hvalues, hviolations⟩ := partitionResults_agrees hresults
  unfold ofDocument
  generalize partitionResults (schema.map (·.check d₁)) = p₁ at hvalues hviolations ⊢
  generalize partitionResults (schema.map (·.check d₂)) = p₂ at hvalues hviolations ⊢
  obtain ⟨values, violations₁⟩ := p₁
  obtain ⟨values₂, violations₂⟩ := p₂
  obtain rfl : values = values₂ := hvalues
  cases hviolations with
  | nil =>
    -- No violations: both records are put together from the same values.
    refine ⟨rfl, rfl, ?_⟩
    dsimp only
    rw [if_pos rfl]
    split <;> exact .nil
  | cons he hrest => exact ⟨rfl, rfl, .cons he hrest⟩

/-- A field that has the same value in two documents adds the same to both verdicts, and one that
is in neither adds a violation that differs in its echo at most. Documents that agree on the fields
of the schema, whatever else they hold and in whatever order, have the same outcome and record and
the same violations up to the echoes of missing fields. -/
theorem ofDocument_local (d₁ d₂ : Members) :
    let v₁ := ofDocument d₁
    let v₂ := ofDocument d₂
    (∀ field ∈ schema, ∀ value, d₁.get? field.name = some value →
      d₂.get? field.name = some value →
      (v₁.against field.name = [] ∧ v₂.against field.name = []) ∨
        ∃ e, v₁.against field.name = [e] ∧ v₂.against field.name = [e]) ∧
    (∀ field ∈ schema, d₁.get? field.name = none → d₂.get? field.name = none →
      ∃ e₁ e₂, v₁.against field.name = [e₁] ∧ v₂.against field.name = [e₂] ∧
        e₁.kind = .missing ∧ e₂.kind = .missing ∧ e₁ = { e₂ with input := e₁.input }) ∧
    ((∀ field ∈ schema, d₁.get? field.name = d₂.get? field.name) →
      v₁.ok = v₂.ok ∧ v₁.record = v₂.record ∧
        List.Forall₂ (fun e₁ e₂ => e₁ = e₂ ∨
          e₁.kind = .missing ∧ e₂.kind = .missing ∧ e₁ = { e₂ with input := e₁.input })
          v₁.violations v₂.violations) := by
  intro v₁ v₂
  refine ⟨fun field hf value h₁ h₂ => ?_, fun field hf h₁ h₂ => ?_, fun h => ?_⟩
  · have hc₁ := Field.check_of_get? h₁
    have hc₂ := Field.check_of_get? h₂
    cases hc : field.coerce value with
    | ok c => exact .inl ⟨against_of_ok hf (hc₁.trans hc), against_of_ok hf (hc₂.trans hc)⟩
    | error e =>
      exact .inr ⟨e, against_of_error hf (hc₁.trans hc), against_of_error hf (hc₂.trans hc)⟩
  · exact ⟨_, _, against_of_error hf (Field.check_of_missing h₁),
      against_of_error hf (Field.check_of_missing h₂), rfl, rfl, rfl⟩
  · obtain ⟨hok, hrecord, hviolations⟩ := ofDocument_agrees h
    refine ⟨hok, hrecord, hviolations.imp fun e₁ e₂ he => ?_⟩
    by_cases hkind : e₁.kind = .missing
    · have hkind₂ : e₂.kind = .missing := by
        rw [he.rest] at hkind
        exact hkind
      exact .inr ⟨hkind, hkind₂, he.rest⟩
    · left
      rw [he.rest, he.input hkind]

/-- Unknown members and the order of the members make no difference. -/
theorem ofDocument_local_unknown :
    let v₁ := ofDocument [("mode", .string "OFF"), ("unit", .null)]
    let v₂ := ofDocument [("unit", .bool true), ("mode", .string "OFF")]
    v₁.ok = v₂.ok ∧ v₁.record = v₂.record ∧
      ∃ e₁ e₂, v₁.against "id" = [e₁] ∧ v₂.against "id" = [e₂] ∧
        e₁ = { e₂ with input := e₁.input } := by
  intro v₁ v₂
  obtain ⟨-, habsent, hagree⟩ := ofDocument_local [("mode", .string "OFF"), ("unit", .null)]
    [("unit", .bool true), ("mode", .string "OFF")]
  obtain ⟨hok, hrecord, -⟩ := hagree (by simp [schema, Members.get?])
  obtain ⟨e₁, e₂, h₁, h₂, -, -, he⟩ := habsent ⟨"id", .uuid⟩ (by decide) rfl rfl
  exact ⟨hok, hrecord, e₁, e₂, h₁, h₂, he⟩

end Verdict

end ConfigGate
