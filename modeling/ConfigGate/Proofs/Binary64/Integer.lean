import Mathlib
import ConfigGate.Moment.Unix
import ConfigGate.Proofs.Binary64.Error

/-!
# Natural numbers among the binary64 numbers

A natural number is a binary64 number if its ones in binary lie within 53 places (`IsShort`). What a
natural number is rounded to is natural again, and the same exactly if it is short. `Nearest m n`
says that `m` is rounded to `n`.
-/

namespace ConfigGate.Magnitude

/-- The number has at most 53 significant bits. -/
def IsShort (n : Nat) : Prop := ∃ k e : Nat, k < 2 ^ 53 ∧ n = k * 2 ^ e

namespace IsShort

variable {m n j : Nat}

theorem of_lt (h : n < 2 ^ 53) : IsShort n := ⟨n, 0, h, by simp⟩

theorem mul_pow (h : IsShort n) (e : Nat) : IsShort (n * 2 ^ e) := by
  obtain ⟨k, f, hk, rfl⟩ := h
  exact ⟨k, f + e, hk, by rw [pow_add, mul_assoc]⟩

/-- The larger a short number, the more zeros it ends in. -/
theorem pow_dvd (h : IsShort n) (hn : 2 ^ (53 + j) ≤ n) : 2 ^ (j + 1) ∣ n := by
  obtain ⟨k, e, hk, rfl⟩ := h
  have he : j < e := by
    by_contra hle
    have hpow : 2 ^ e ≤ 2 ^ j := Nat.pow_le_pow_right (by decide) (by omega)
    have hlt : k * 2 ^ e < 2 ^ 53 * 2 ^ j :=
      Nat.mul_lt_mul_of_lt_of_le hk hpow (Nat.two_pow_pos j)
    rw [← pow_add] at hlt
    omega
  exact (pow_dvd_pow 2 he).mul_left k

theorem exists_toRat (h : IsShort n) (hn : n < 2 ^ 128) : ∃ x : Magnitude, x.toRat = n := by
  obtain ⟨k, e, hk, rfl⟩ := h
  rcases Nat.eq_zero_or_pos k with rfl | hpos
  · exact ⟨zero, by simp [toRat_zero]⟩
  · have he : e ≤ 128 := by
      by_contra hlt
      have hpow : 2 ^ 128 ≤ 2 ^ e := Nat.pow_le_pow_right (by decide) (by omega)
      have := Nat.le_mul_of_pos_left (2 ^ e) hpos
      omega
    obtain ⟨x, hx⟩ := Magnitude.exists_toRat hk (he.trans (by decide))
    exact ⟨x, by rw [hx]; push_cast; rfl⟩

end IsShort

/-- A short number is not rounded. -/
theorem Rounds.toRat_eq {n : Nat} {x : Magnitude} (h : Rounds n (some x)) (hn : IsShort n)
    (hlt : n < 2 ^ 128) : x.toRat = n := by
  obtain ⟨y, hy⟩ := hn.exists_toRat hlt
  rw [← hy] at h
  rw [Option.some.inj h.eq, hy]

/-- The significand and exponent of a value. -/
theorem exists_toRat_mul {p : Nat} (hp : 1074 = p) (x : Magnitude) :
    ∃ r e : Nat, r < 2 ^ 53 ∧ x.toRat * 2 ^ p = r * 2 ^ e := by
  obtain ⟨r, e, hpair, hx⟩ := x.exists_pair
  refine ⟨r, e, hpair.lt, ?_⟩
  have hunits := x.units_eq_toRat
  rw [units_eq hpair hx, perOne_eq hp] at hunits
  push_cast at hunits
  exact hunits.symm

theorem isShort_of_toRat {x : Magnitude} {n : Nat} (h : x.toRat = n) : IsShort n := by
  obtain ⟨p, hp⟩ : ∃ p, 1074 = p := ⟨_, rfl⟩
  obtain ⟨r, e, hr, hx⟩ := exists_toRat_mul hp x
  rw [h] at hx
  have hmul : n * 2 ^ p = r * 2 ^ e := by exact_mod_cast hx
  rcases Nat.le_total p e with hpe | hep
  · refine ⟨r, e - p, hr, Nat.eq_of_mul_eq_mul_right (Nat.two_pow_pos p) ?_⟩
    rw [hmul, mul_assoc, ← pow_add, Nat.sub_add_cancel hpe]
  · -- The value is a fraction of the significand, and less than that.
    refine .of_lt (Nat.lt_of_le_of_lt ?_ hr)
    refine Nat.le_of_mul_le_mul_right ?_ (Nat.two_pow_pos e)
    rw [← hmul]
    exact Nat.mul_le_mul_left n (Nat.pow_le_pow_right (by decide) hep)

/-- From 2^53 on there are no fractions. -/
theorem exists_nat_of_le {x : Magnitude} (h : 2 ^ 53 ≤ x.toRat) : ∃ n : Nat, x.toRat = n := by
  obtain ⟨p, hp⟩ : ∃ p, 1074 = p := ⟨_, rfl⟩
  obtain ⟨r, e, hr, hx⟩ := exists_toRat_mul hp x
  have hpos : (0 : ℚ) < 2 ^ p := by positivity
  have hle : 2 ^ 53 * 2 ^ p ≤ r * 2 ^ e := by
    have : (2 : ℚ) ^ 53 * 2 ^ p ≤ r * 2 ^ e := hx ▸ mul_le_mul_of_nonneg_right h hpos.le
    exact_mod_cast this
  have hpe : p ≤ e := by
    by_contra hlt
    have hpow : 2 ^ e ≤ 2 ^ p := Nat.pow_le_pow_right (by decide) (by omega)
    have := Nat.mul_lt_mul_of_lt_of_le hr hpow (Nat.two_pow_pos p)
    omega
  refine ⟨r * 2 ^ (e - p), mul_right_cancel₀ hpos.ne' ?_⟩
  rw [hx]
  push_cast
  rw [mul_assoc, ← pow_add, Nat.sub_add_cancel hpe]

theorem exists_nat_of_rounds {m : Nat} {x : Magnitude} (h : Rounds m (some x)) :
    ∃ n : Nat, x.toRat = n := by
  rcases Nat.lt_or_ge m (2 ^ 53) with hlt | hge
  · obtain ⟨y, hy⟩ := exists_toRat_nat hlt
    rw [← hy] at h
    exact ⟨m, Option.some.inj h.eq ▸ hy⟩
  · obtain ⟨y, hy⟩ := Magnitude.exists_toRat (a := 1) (b := 53) (by decide) (by decide)
    rw [Nat.cast_one, one_mul] at hy
    refine exists_nat_of_le ?_
    rw [← hy]
    refine h.ge ?_
    rw [hy]
    exact_mod_cast hge

theorem round_of_toRat {x : Magnitude} {n : Nat} (h : x.toRat = n) : x.round = n := by
  have hunits : x.units = n * perOne := by
    have := x.units_eq_toRat
    rw [h] at this
    exact_mod_cast this
  have hpos := perOne_pos
  rw [round, hunits]
  generalize perOne = p at *
  rw [show 2 * (n * p) + p = p + n * (2 * p) by ring, Nat.add_mul_div_right _ _ (by omega),
    Nat.div_eq_of_lt (by omega), Nat.zero_add]

/-! ### Rounding natural numbers -/

/-- The binary64 number nearest to `m` is `n`. -/
def Nearest (m n : Nat) : Prop := ∃ x : Magnitude, Rounds m (some x) ∧ x.toRat = n

theorem exists_nearest {m : Nat} {r : Option Magnitude} (h : Rounds m r) (hm : m ≤ 2 ^ 128) :
    ∃ (x : Magnitude) (n : Nat), r = some x ∧ x.toRat = n ∧ Nearest m n := by
  obtain ⟨top, htop⟩ := Magnitude.exists_toRat (a := 1) (b := 128) (by decide) (by decide)
  rw [Nat.cast_one, one_mul] at htop
  obtain ⟨x, rfl, -⟩ := h.le (y := top) (by rw [htop]; exact_mod_cast hm)
  obtain ⟨n, hn⟩ := exists_nat_of_rounds h
  exact ⟨x, n, rfl, hn, x, h, hn⟩

namespace Nearest

variable {m n b : Nat}

theorem le_of_isShort (h : Nearest m n) (hb : IsShort b) (hlt : b < 2 ^ 128) (hm : m ≤ b) :
    n ≤ b := by
  obtain ⟨x, hx, hn⟩ := h
  obtain ⟨y, hy⟩ := hb.exists_toRat hlt
  obtain ⟨x', hx', hle⟩ := hx.le (y := y) (by rw [hy]; exact_mod_cast hm)
  cases hx'
  rw [hn, hy] at hle
  exact_mod_cast hle

theorem eq_iff (h : Nearest m n) (hm : m < 2 ^ 128) : n = m ↔ IsShort m := by
  obtain ⟨x, hx, hn⟩ := h
  constructor
  · rintro rfl
    exact isShort_of_toRat hn
  · intro hshort
    have heq : (n : ℚ) = m := by rw [← hn, hx.toRat_eq hshort hm]
    exact_mod_cast heq

/-- The error is a part in 2^53 at most. -/
theorem near (h : Nearest m n) : 2 ^ 53 * |(n : Int) - m| ≤ m := by
  obtain ⟨x, hx, hn⟩ := h
  rcases Nat.eq_zero_or_pos m with rfl | hpos
  · rw [Nat.cast_zero, ← toRat_zero] at hx
    rw [Option.some.inj hx.eq, toRat_zero] at hn
    have hzero : n = 0 := by exact_mod_cast hn.symm
    simp [hzero]
  · have hw := hx.within (by exact_mod_cast hpos)
    rw [hn] at hw
    have hge := hw.ge
    have hle := hw.le
    rw [pow_one] at hge hle
    have habs : |(n : ℚ) - m| ≤ m / 2 ^ 53 := by
      rw [abs_le]
      constructor <;> linarith
    rw [le_div_iff₀ (by norm_num), mul_comm] at habs
    exact_mod_cast habs

end Nearest

end ConfigGate.Magnitude
