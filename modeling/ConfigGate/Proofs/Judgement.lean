import Mathlib
import ConfigGate.Judgement
import ConfigGate.Proofs.Json.Parse

/-!
# Judgement and the grammar

What becomes of a text is decided by the value that it denotes: a verdict if this is an object, a
failure that names its type if it is another value, and a diagnosis if the text denotes nothing.
-/

namespace ConfigGate

open Json (Denotes Members)

variable {text : List Char}

theorem judge_of_object {document : Members} (h : Denotes text (.object document)) :
    judge text = .ok (.ofDocument document) := by
  rw [judge, Json.parse_of_denotes h]

theorem judge_of_other {x : Json} (h : Denotes text x) (hx : ∀ document, x ≠ .object document) :
    judge text = .error (.notAnObject x.typeName) := by
  rw [judge, Json.parse_of_denotes h]
  cases x with
  | object document => exact absurd rfl (hx document)
  | _ => rfl

theorem judge_of_nothing (h : ∀ x, ¬ Denotes text x) :
    ∃ diagnosis, judge text = .error (.malformed diagnosis) := by
  cases hp : Json.parse text with
  | ok x => exact absurd (Json.denotes_of_parse hp) (h x)
  | error fault => exact ⟨fault.diagnosis text, by rw [judge, hp]⟩

/-- A text denotes an object, or another value, or nothing. -/
theorem denotes_cases (text : List Char) :
    (∃ document, Denotes text (.object document)) ∨
      (∃ x, Denotes text x ∧ ∀ document, x ≠ .object document) ∨ ∀ x, ¬ Denotes text x := by
  by_cases h : ∃ x, Denotes text x
  · obtain ⟨x, hx⟩ := h
    by_cases hobject : ∃ document, x = .object document
    · obtain ⟨document, rfl⟩ := hobject
      exact .inl ⟨document, hx⟩
    · exact .inr (.inl ⟨x, hx, fun document hd => hobject ⟨document, hd⟩⟩)
  · exact .inr (.inr fun x hx => h ⟨x, hx⟩)

/-- A verdict is one on the document that the text denotes. -/
theorem exists_document {v : Verdict} (h : judge text = .ok v) :
    ∃ document, Denotes text (.object document) ∧ v = .ofDocument document := by
  rcases denotes_cases text with ⟨document, hd⟩ | ⟨x, hx, hne⟩ | hno
  · rw [judge_of_object hd] at h
    cases h
    exact ⟨document, hd, rfl⟩
  · rw [judge_of_other hx hne] at h
    cases h
  · obtain ⟨diagnosis, hd⟩ := judge_of_nothing hno
    rw [hd] at h
    cases h

/-- The three outcomes of judging a text, each exactly where the grammar says. -/
theorem judge_iff_denotes (text : List Char) :
    (∀ v, judge text = .ok v ↔
      ∃ document, Denotes text (.object document) ∧ v = .ofDocument document) ∧
    (∀ name, judge text = .error (.notAnObject name) ↔
      ∃ x, Denotes text x ∧ (∀ document, x ≠ .object document) ∧ name = x.typeName) ∧
    ((∃ diagnosis, judge text = .error (.malformed diagnosis)) ↔ ∀ x, ¬ Denotes text x) ∧
    (∀ x y, Denotes text x → Denotes text y → x = y) ∧
    ((∃ v, judge text = .ok v) ∨ (∃ name, judge text = .error (.notAnObject name)) ∨
      ∃ diagnosis, judge text = .error (.malformed diagnosis)) := by
  have unique : ∀ {x y}, Denotes text x → Denotes text y → x = y := fun hx hy => hx.unique hy
  rcases denotes_cases text with ⟨document, h⟩ | ⟨x, h, hx⟩ | h
  · have hj := judge_of_object h
    refine ⟨fun v => ?_, fun name => ?_, ?_, fun _ _ => unique, .inl ⟨_, hj⟩⟩
    · rw [hj]
      constructor
      · exact fun hv => ⟨document, h, (Except.ok.inj hv).symm⟩
      · rintro ⟨d, hd, rfl⟩
        rw [Json.object.inj (unique h hd)]
    · rw [hj]
      refine ⟨nofun, ?_⟩
      rintro ⟨y, hy, hne, -⟩
      exact absurd (unique hy h) (hne document)
    · rw [hj]
      exact ⟨nofun, fun hno => absurd h (hno _)⟩
  · have hj := judge_of_other h hx
    refine ⟨fun v => ?_, fun name => ?_, ?_, fun _ _ => unique, .inr (.inl ⟨_, hj⟩)⟩
    · rw [hj]
      refine ⟨nofun, ?_⟩
      rintro ⟨d, hd, -⟩
      exact absurd (unique h hd) (hx d)
    · rw [hj]
      constructor
      · intro hn
        exact ⟨x, h, hx, (Failure.notAnObject.inj (Except.error.inj hn)).symm⟩
      · rintro ⟨y, hy, -, rfl⟩
        rw [unique h hy]
    · rw [hj]
      exact ⟨nofun, fun hno => absurd h (hno _)⟩
  · obtain ⟨diagnosis, hj⟩ := judge_of_nothing h
    refine ⟨fun v => ?_, fun name => ?_, ?_, fun _ _ => unique, .inr (.inr ⟨_, hj⟩)⟩
    · rw [hj]
      refine ⟨nofun, ?_⟩
      rintro ⟨d, hd, -⟩
      exact absurd hd (h _)
    · rw [hj]
      refine ⟨nofun, ?_⟩
      rintro ⟨y, hy, -⟩
      exact absurd hy (h _)
    · exact ⟨fun _ => h, fun _ => ⟨diagnosis, hj⟩⟩

end ConfigGate
