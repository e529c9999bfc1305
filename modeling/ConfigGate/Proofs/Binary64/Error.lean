import Mathlib
import ConfigGate.Proofs.Binary64.Rounding

/-!
# The error of rounding

A number of at least one is rounded to one that is off by a part in 2^53 at most (`Rounds.within`).
`Within k x q` says that `x` is `q` up to `k` such errors. They add up when numbers are multiplied
or rounded again.
-/

namespace ConfigGate

/-! ### Rounding to natural numbers -/

theorem divRound_mul_near (num : Nat) {den : Nat} (hd : 0 < den) :
    2 * (divRound num den * den) ≤ 2 * num + den ∧ 2 * num ≤ 2 * (divRound num den * den) + den := by
  have hdiv := Nat.div_add_mod num den
  have hlt := Nat.mod_lt num hd
  unfold divRound
  dsimp only
  generalize num / den = q at *
  generalize num % den = r at *
  have hsucc : (q + 1) * den = den * q + den := by ring
  have hq : q * den = den * q := Nat.mul_comm q den
  split_ifs with h₁ h₂
  · rw [hq]
    omega
  · rw [hsucc]
    omega
  · -- A tie is as far from both neighbours.
    rcases Nat.mod_two_eq_zero_or_one q with h | h
    · rw [h, Nat.add_zero, hq]
      omega
    · rw [h, hsucc]
      omega

namespace Magnitude

/-- A significand may reach the end of its binade, where the next one starts. -/
theorem units_eq_of_le {x : Magnitude} {r e : Nat} (hlow : 2 ^ 52 ≤ r) (hhigh : r ≤ 2 ^ 53)
    (hx : x.ordinal = pairOrdinal r e) : x.units = r * 2 ^ e := by
  rcases Nat.lt_or_eq_of_le hhigh with hlt | rfl
  · exact units_eq ⟨hlt, .inr hlow⟩ hx
  · have hnext : x.ordinal = pairOrdinal (2 ^ 52) (e + 1) := by
      rw [hx]
      simp only [pairOrdinal]
      omega
    rw [units_eq ⟨by decide, .inr le_rfl⟩ hnext, Nat.pow_succ]
    ring

theorem doublings_ne_zero {num den : Nat} (hd : 0 < den) (h : 2 ^ 53 * den ≤ num) :
    doublings num den ≠ 0 := by
  intro hzero
  have hlt := lt_of_doublings num hd
  rw [hzero, Nat.add_zero] at hlt
  omega

/-- The nearest magnitude to a number of at least 2^53 units is off by a part in 2^53 at most. -/
theorem nearest?_near {num den : Nat} {x : Magnitude} (hd : 0 < den)
    (hbig : 2 ^ 53 * den ≤ num * perOne) (h : nearest? num den = some x) :
    2 ^ 53 * (x.units * den) ≤ (2 ^ 53 + 1) * (num * perOne) ∧
      (2 ^ 53 - 1) * (num * perOne) ≤ 2 ^ 53 * (x.units * den) := by
  rw [nearest?_eq] at h
  generalize num * perOne = u at *
  have hne := doublings_ne_zero hd hbig
  have hlow := le_of_doublings u hd hne
  have hhigh := lt_of_doublings u hd
  split at h
  · cases h
    generalize hr : divRound u (den * 2 ^ doublings u den) = r
    generalize he : doublings u den = e at *
    have hpos : 0 < den * 2 ^ e := Nat.mul_pos hd (Nat.two_pow_pos e)
    have hstep : 2 ^ 52 * (den * 2 ^ e) ≤ u := by
      convert hlow using 1
      rw [Nat.pow_add]
      ring
    have hr₁ : 2 ^ 52 ≤ r := hr ▸ le_divRound hpos hstep
    have hr₂ : r ≤ 2 ^ 53 := by
      refine hr ▸ divRound_le hpos (Nat.le_of_lt ?_)
      convert hhigh using 1
      rw [Nat.pow_add]
      ring
    have hunits : (⟨ordinalNear u den, ‹_›⟩ : Magnitude).units = r * 2 ^ e :=
      units_eq_of_le hr₁ hr₂ (by simp only [ordinalNear, he, hr])
    have hnear := divRound_mul_near u hpos
    rw [hr] at hnear
    rw [hunits, show r * 2 ^ e * den = r * (den * 2 ^ e) by ring]
    generalize den * 2 ^ e = step at *
    generalize r * step = v at *
    omega
  · cases h

/-! ### Accumulated errors -/

/-- `x` is `q` up to `k` errors of one part in 2^53. -/
structure Within (k : Nat) (x q : ℚ) : Prop where
  ge : q * (1 - 1 / 2 ^ 53) ^ k ≤ x
  le : x ≤ q * (1 + 1 / 2 ^ 53) ^ k

namespace Within

variable {k l : Nat} {x y q r : ℚ}

theorem refl (q : ℚ) : Within 0 q q := by
  constructor <;> simp

theorem mono (h : Within k x q) (hkl : k ≤ l) (hq : 0 ≤ q) : Within l x q := by
  constructor
  · refine le_trans (mul_le_mul_of_nonneg_left ?_ hq) h.ge
    exact pow_le_pow_of_le_one (by norm_num) (by norm_num) hkl
  · refine h.le.trans (mul_le_mul_of_nonneg_left ?_ hq)
    exact pow_le_pow_right₀ (by norm_num) hkl

theorem mul (hx : Within k x q) (hy : Within l y r) (hq : 0 ≤ q) (hr : 0 ≤ r) :
    Within (k + l) (x * y) (q * r) := by
  have hlow : (0 : ℚ) ≤ 1 - 1 / 2 ^ 53 := by norm_num
  have hx₀ : 0 ≤ x := le_trans (mul_nonneg hq (pow_nonneg hlow k)) hx.ge
  have hy₀ : 0 ≤ y := le_trans (mul_nonneg hr (pow_nonneg hlow l)) hy.ge
  constructor
  · rw [pow_add, mul_mul_mul_comm]
    exact mul_le_mul hx.ge hy.ge (mul_nonneg hr (pow_nonneg hlow l)) hx₀
  · rw [pow_add, mul_mul_mul_comm]
    exact mul_le_mul hx.le hy.le hy₀ (by positivity)

theorem trans (hx : Within k x q) (hy : Within l y x) : Within (k + l) y q := by
  constructor
  · have hlow : (0 : ℚ) ≤ (1 - 1 / 2 ^ 53) ^ l := pow_nonneg (by norm_num) l
    rw [pow_add, ← mul_assoc]
    exact (mul_le_mul_of_nonneg_right hx.ge hlow).trans hy.ge
  · rw [pow_add, ← mul_assoc]
    exact hy.le.trans (mul_le_mul_of_nonneg_right hx.le (by positivity))

end Within

theorem Rounds.within {q : ℚ} {x : Magnitude} (h : Rounds q (some x)) (hq : 1 ≤ q) :
    Within 1 x.toRat q := by
  obtain ⟨num, den, hd, rfl, hx⟩ := h
  have hd' : (0 : ℚ) < den := Nat.cast_pos.2 hd
  have hbig : 2 ^ 53 * den ≤ num * perOne := by
    have hnum : den ≤ num := by exact_mod_cast (one_le_div hd').1 hq
    obtain ⟨n, hn⟩ : ∃ n, 1074 = n := ⟨_, rfl⟩
    have hone : 2 ^ 53 ≤ perOne := by
      rw [perOne_eq hn]
      exact Nat.pow_le_pow_right (by decide) (by omega)
    rw [Nat.mul_comm]
    exact Nat.mul_le_mul hnum hone
  obtain ⟨hle, hge⟩ := nearest?_near hd hbig hx.symm
  have hpos := perOne_pos_rat
  rw [toRat]
  generalize perOne = p at *
  have hle' : (2 : ℚ) ^ 53 * (x.units * den) ≤ (2 ^ 53 + 1) * (num * p) := by exact_mod_cast hle
  have hge' : ((2 : ℚ) ^ 53 - 1) * (num * p) ≤ 2 ^ 53 * (x.units * den) := by
    have hcast : ((2 ^ 53 - 1 : Nat) : ℚ) = 2 ^ 53 - 1 := by norm_num
    rw [← hcast]
    exact_mod_cast hge
  constructor
  · rw [pow_one, le_div_iff₀ hpos, div_mul_eq_mul_div, div_mul_eq_mul_div, div_le_iff₀ hd']
    linarith
  · rw [pow_one, div_le_iff₀ hpos, div_mul_eq_mul_div, div_mul_eq_mul_div, le_div_iff₀ hd']
    linarith

end Magnitude

end ConfigGate
