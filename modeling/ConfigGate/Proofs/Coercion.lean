import Mathlib
import ConfigGate.Coercion
import ConfigGate.Proofs.Except

/-!
# What a coercion says

A number is accepted where it lies between its bounds, a text where it is one of the literals. A
violation is about the field whose value was coerced: its path is that field alone.
-/

namespace ConfigGate

namespace Binary64

/-- A finite number from `lo` to `hi`, both included. -/
def Between (lo hi : Int) : Binary64 → Prop
  | finite s x =>
    lo * Magnitude.perOne ≤ x.signedUnits s ∧ x.signedUnits s ≤ hi * Magnitude.perOne
  | _ => False

theorem between_iff (x : Binary64) (lo hi : Int) :
    x.Between lo hi ↔ x.isNaN = false ∧ x.isBelow lo = false ∧ x.isAbove hi = false := by
  cases x with
  | finite s x =>
    simp only [Between, isNaN, isBelow, isAbove, decide_eq_false_iff_not, Int.not_lt, true_and]
  | infinite s => cases s <;> simp [Between, isNaN, isBelow, isAbove]
  | nan => simp [Between, isNaN]

end Binary64

namespace Violation

@[simp]
theorem path_ofField (kind : Kind) (field message : String) (input : Json) :
    (ofField kind field message input).path = [field] := rfl

@[simp]
theorem path_withContext (v : Violation) (key : String) (value : Json) :
    (v.withContext key value).path = v.path := rfl

end Violation

namespace Coercion

variable {field : String} {value : Json} {e : Violation}

theorem number_eq_ok_iff {ge le : Int32} {x : Binary64} :
    number field value ge le = .ok x ↔
      readNumber field value = .ok x ∧ x.Between ge.toInt le.toInt := by
  rw [Binary64.between_iff, number]
  cases readNumber field value with
  | error e => simp [bind, Except.bind]
  | ok y =>
    simp only [bind, Except.bind, Except.ok.injEq]
    split
    · next h =>
      refine ⟨nofun, ?_⟩
      rintro ⟨rfl, h₁, h₂, -⟩
      simp [h₁, h₂] at h
    · next h =>
      rw [Bool.or_eq_true, not_or, Bool.not_eq_true, Bool.not_eq_true] at h
      split
      · next h' =>
        refine ⟨nofun, ?_⟩
        rintro ⟨rfl, -, -, h₃⟩
        simp [h₃] at h'
      · next h' =>
        simp only [Except.ok.injEq]
        constructor
        · rintro rfl
          exact ⟨rfl, h.1, h.2, Bool.eq_false_iff.2 h'⟩
        · exact fun h => h.1

theorem moment_eq_ok_iff {m : Moment} :
    moment field value = .ok m ↔ readMoment? value = some (.ok m) := by
  unfold moment
  split
  · next m' h =>
    rw [h, Except.ok.injEq, Option.some.injEq, Except.ok.injEq]
  · next h => simp [h]
  · next h => simp [h]

theorem literal_eq_ok_iff {pattern s : String} {literals : List String} :
    literal field value pattern literals = .ok s ↔ value = .string s ∧ s ∈ literals := by
  unfold literal
  split
  · split
    · simp only [Except.ok.injEq, Json.string.injEq]
      exact ⟨fun h => ⟨h, h ▸ ‹_›⟩, fun h => h.1⟩
    · refine ⟨nofun, ?_⟩
      rintro ⟨h, hs⟩
      cases h
      exact absurd hs ‹_›
  · next hv =>
    refine ⟨nofun, ?_⟩
    rintro ⟨rfl, -⟩
    exact absurd rfl (hv s)

/-! ### The field of a violation -/

theorem uuid_path (h : uuid field value = .error e) : e.path = [field] := by
  unfold uuid at h
  split at h
  · split at h
    · cases h
    · cases h; rfl
  · cases h; rfl

theorem moment_path (h : moment field value = .error e) : e.path = [field] := by
  unfold moment at h
  split at h
  · cases h
  · cases h; rfl
  · cases h; rfl

theorem readNumber_path (h : readNumber field value = .error e) : e.path = [field] := by
  unfold readNumber at h
  split at h
  · cases h
  · cases h
  · split at h
    · cases h
    · cases h; rfl
  · cases h; rfl

theorem number_path {ge le : Int32} (h : number field value ge le = .error e) :
    e.path = [field] := by
  unfold number at h
  cases hr : readNumber field value with
  | error e' =>
    rw [hr] at h
    cases h
    exact readNumber_path hr
  | ok x =>
    simp only [hr, bind, Except.bind] at h
    split at h
    · cases h; rfl
    · split at h
      · cases h; rfl
      · cases h

theorem literal_path {pattern : String} {literals : List String}
    (h : literal field value pattern literals = .error e) : e.path = [field] := by
  unfold literal at h
  split at h
  · split at h
    · cases h
    · cases h; rfl
  · cases h; rfl

end Coercion

end ConfigGate
