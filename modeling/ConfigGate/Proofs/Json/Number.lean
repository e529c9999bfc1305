import Mathlib
import ConfigGate.Proofs.Digits
import ConfigGate.Proofs.Json.Grammar

/-!
# Numbers of a JSON text

`Number.ofNumeral` gives the number that a numeral stands for. Digits are gathered as long as 64
bits hold them, so that an integer which fits is gathered whole, and reading it in stages or at once
is the same where it is not kept as an integer.
-/

namespace ConfigGate.Json

namespace Number

/-- Gathering appends a first part of the digits, and stops only where the next digit is too much. -/
theorem gather_spec (s : Nat) (ds : List Digit) :
    ∃ taken left, ds = taken ++ left ∧
      gather s ds = (s * 10 ^ taken.length + Digits.value taken, taken.length) ∧
      ∀ d ∈ left.head?,
        0x10000000000000000 ≤ 10 * (s * 10 ^ taken.length + Digits.value taken) + d.val := by
  induction ds generalizing s with
  | nil => exact ⟨[], [], rfl, by simp [gather], by simp⟩
  | cons d ds ih =>
    rw [gather]
    split
    · obtain ⟨taken, left, rfl, hg, hd⟩ := ih (10 * s + d.val)
      have hval : (10 * s + d.val) * 10 ^ taken.length + Digits.value taken =
          s * 10 ^ (d :: taken).length + Digits.value (d :: taken) := by
        rw [Digits.value_cons, List.length_cons, pow_succ]
        ring
      rw [hval] at hg hd
      exact ⟨d :: taken, left, rfl, by rw [hg]; rfl, hd⟩
    · next h => exact ⟨[], d :: ds, rfl, by simp, by simpa using h⟩

theorem gather_of_lt {s : Nat} {ds : List Digit}
    (h : s * 10 ^ ds.length + Digits.value ds < 0x10000000000000000) :
    gather s ds = (s * 10 ^ ds.length + Digits.value ds, ds.length) := by
  obtain ⟨taken, left, rfl, hg, hd⟩ := gather_spec s ds
  cases left with
  | nil => simpa using hg
  | cons d left =>
    exfalso
    have hlt := hd d rfl
    have hval : (10 * (s * 10 ^ taken.length + Digits.value taken) + d.val) * 10 ^ left.length ≤
        s * 10 ^ (taken ++ d :: left).length + Digits.value (taken ++ d :: left) := by
      rw [Digits.value_append, Digits.value_cons, List.length_append, List.length_cons, pow_add,
        pow_succ]
      ring_nf
      omega
    have hone : 1 ≤ 10 ^ left.length := Nat.one_le_two_pow.trans (Nat.pow_le_pow_left (by omega) _)
    have := Nat.le_mul_of_pos_right (10 * (s * 10 ^ taken.length + Digits.value taken) + d.val) hone
    omega

/-- An integer that is not kept as one is read with all its digits. -/
theorem ofFractional_of_lt {n : Numeral} (hf : n.fraction = []) (he : n.exponent = none)
    (h : Digits.value n.whole < 0x10000000000000000) :
    ofFractional n = scaled n.negative (Digits.value n.whole) 0 := by
  have hg : gather 0 n.whole = (Digits.value n.whole, n.whole.length) := by
    have := @gather_of_lt 0 n.whole (by simpa using h)
    simpa using this
  simp [ofFractional, significand, hg, hf, he, gather]

end Number

namespace Grammar

variable {n : Numeral} {x : Number}

theorem not_isInteger (h : ¬ (n.fraction = [] ∧ n.exponent = none)) (i : Int) : ¬ IsInteger n i :=
  fun hi => h ⟨hi.1, hi.2.1⟩

theorem IsInteger.unique {i j : Int} (hi : IsInteger n i) (hj : IsInteger n j) : i = j :=
  hi.2.2.1.trans hj.2.2.1.symm

/-- The number of a numeral is the one that is read. -/
theorem numberOf_iff : NumberOf n x ↔ Number.ofNumeral n = .ok x := by
  have floats : (∀ i, IsInteger n i →
      ¬ (-0x8000000000000000 ≤ i ∧ i < 0x10000000000000000)) →
      (NumberOf n x ↔ Number.ofFractional n = .ok x) := by
    intro hno
    refine ⟨fun h => ?_, fun h => .float hno h⟩
    cases h with
    | integer hi fits => exact absurd fits (hno _ hi)
    | float _ h => exact h
  have integers : ∀ {i : Int} (hi : IsInteger n i) (fits),
      NumberOf n x ↔ (.ok (.integer i fits) : Except Nat Number) = .ok x := by
    intro i hi fits
    refine ⟨fun h => ?_, fun h => Except.ok.inj h ▸ .integer hi fits⟩
    cases h with
    | integer hj _ => simp only [hi.unique hj]
    | float hno _ => exact absurd fits (hno _ hi)
  unfold Number.ofNumeral
  split
  · next hint =>
    obtain ⟨hf, he⟩ := hint
    dsimp only
    split
    · next hlt =>
      unfold Number.ofInteger
      split
      · next hneg =>
        split
        · next hs => exact integers ⟨hf, he, by rw [if_pos hneg], by omega⟩ _
        · next hs =>
          rw [floats, Number.ofFractional_of_lt hf he hlt, hneg]
          rintro i ⟨-, -, hi, hzero⟩
          rw [if_pos hneg] at hi
          have : i ≠ 0 := fun h => hzero ⟨hneg, h⟩
          omega
      · next hneg => exact integers ⟨hf, he, by rw [if_neg hneg], fun h => hneg h.1⟩ _
    · next hlt =>
      rw [floats]
      rintro i ⟨-, -, hi, -⟩
      split at hi <;> omega
  · next hint => exact floats fun i hi => absurd hi (not_isInteger hint i)

end Grammar

end ConfigGate.Json
