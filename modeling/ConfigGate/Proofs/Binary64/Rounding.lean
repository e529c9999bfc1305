import Mathlib
import ConfigGate.Binary64.Rounding

/-!
# Rounding to binary64

Rounding keeps the order: what lies below a magnitude is rounded to at most that magnitude, and what
lies above it to at least that one (`Rounds.le`, `Rounds.ge`). A magnitude is its own rounding. The
value of a magnitude is `r * 2 ^ e` units for the significand `r` and exponent `e` of its ordinal,
and the proofs compare these pairs.
-/

namespace ConfigGate

/-! ### Rounding to natural numbers -/

theorem divRound_le {num den n : Nat} (hd : 0 < den) (h : num ≤ n * den) : divRound num den ≤ n := by
  have hq : num / den ≤ n := Nat.div_le_of_le_mul (by rwa [Nat.mul_comm])
  rcases Nat.eq_or_lt_of_le hq with hq | hq
  · have hr : num % den = 0 := by
      have := Nat.div_add_mod num den
      rw [hq, Nat.mul_comm] at this
      omega
    simp [divRound, hr, hd, hq]
  · unfold divRound
    dsimp only
    split_ifs <;> omega

theorem le_divRound {num den n : Nat} (hd : 0 < den) (h : n * den ≤ num) : n ≤ divRound num den := by
  have hq : n ≤ num / den := (Nat.le_div_iff_mul_le hd).2 h
  unfold divRound
  dsimp only
  split_ifs <;> omega

theorem divRound_mul_right (num den : Nat) {k : Nat} (hk : 0 < k) :
    divRound (num * k) (den * k) = divRound num den := by
  have hlt : ∀ a b : Nat, a * k < b * k ↔ a < b := fun a b => Nat.mul_lt_mul_right hk
  simp only [divRound, Nat.mul_div_mul_right _ _ hk, Nat.mul_mod_mul_right, ← Nat.mul_assoc, hlt]

namespace Magnitude

/-- The exponent is a variable, so that nothing tries to evaluate the power. -/
theorem perOne_eq {n : Nat} (h : 1074 = n) : perOne = 2 ^ n := by
  unfold perOne
  rw [h]
  rfl

theorem perOne_pos : 0 < perOne := by
  obtain ⟨n, hn⟩ : ∃ n, 1074 = n := ⟨_, rfl⟩
  rw [perOne_eq hn]
  exact Nat.two_pow_pos n

@[ext]
theorem ext {x y : Magnitude} (h : x.ordinal = y.ordinal) : x = y := by
  cases x
  cases y
  simpa using h

/-! ### Significands and exponents -/

/-- A significand and an exponent that belong together: below the first binade the exponent is
zero. -/
structure IsPair (r e : Nat) : Prop where
  lt : r < 2 ^ 53
  normal : e = 0 ∨ 2 ^ 52 ≤ r

/-- The ordinal of a pair. -/
def pairOrdinal (r e : Nat) : Nat := e * 2 ^ 52 + r

theorem units_eq {x : Magnitude} {r e : Nat} (h : IsPair r e) (hx : x.ordinal = pairOrdinal r e) :
    x.units = r * 2 ^ e := by
  have hlt := h.lt
  simp only [pairOrdinal] at hx
  rcases h.normal with rfl | hr
  · simp only [units, hx]
    rw [if_pos (by omega)]
    omega
  · by_cases he : e = 0
    · subst he
      simp only [units, hx]
      rw [if_pos (by omega)]
      omega
    · have hdiv : x.ordinal / 0x10000000000000 - 1 = e := by omega
      have hmod : 0x10000000000000 + x.ordinal % 0x10000000000000 = r := by omega
      rw [units, if_neg (by omega), hdiv, hmod, Nat.pow_eq]

theorem exists_pair (x : Magnitude) : ∃ r e, IsPair r e ∧ x.ordinal = pairOrdinal r e := by
  by_cases h : x.ordinal < 2 ^ 52
  · exact ⟨x.ordinal, 0, ⟨by omega, .inl rfl⟩, by simp [pairOrdinal]⟩
  · refine ⟨2 ^ 52 + x.ordinal % 2 ^ 52, x.ordinal / 2 ^ 52 - 1, ⟨by omega, .inr (by omega)⟩, ?_⟩
    simp only [pairOrdinal]
    omega

/-- Every number of up to 53 bits, shifted, is the value of a magnitude. -/
theorem exists_units {r e : Nat} (hr : r < 2 ^ 53) (he : e ≤ 2045) :
    ∃ x : Magnitude, x.units = r * 2 ^ e := by
  induction e generalizing r with
  | zero => exact ⟨⟨r, by omega⟩, units_eq ⟨hr, .inl rfl⟩ (by simp [pairOrdinal])⟩
  | succ e ih =>
    by_cases h : r < 2 ^ 52
    · obtain ⟨x, hx⟩ := ih (r := 2 * r) (by omega) (by omega)
      exact ⟨x, by rw [hx, Nat.pow_succ]; ring⟩
    · have hpair : IsPair r (e + 1) := ⟨hr, .inr (by omega)⟩
      have hlt : pairOrdinal r (e + 1) < 2047 * 0x10000000000000 := by
        simp only [pairOrdinal]
        omega
      exact ⟨⟨_, hlt⟩, units_eq hpair rfl⟩

/-! ### The nearest magnitude -/

/-- How often the spacing has doubled at `num / den` units. -/
def doublings (num den : Nat) : Nat := (num / den).log2 - 52

theorem lt_of_doublings (num : Nat) {den : Nat} (hd : 0 < den) :
    num < 2 ^ (53 + doublings num den) * den := by
  have hlog : num / den < 2 ^ ((num / den).log2 + 1) := Nat.lt_log2_self
  have hpow : 2 ^ ((num / den).log2 + 1) ≤ 2 ^ (53 + doublings num den) :=
    Nat.pow_le_pow_right (by decide) (by simp only [doublings]; omega)
  exact (Nat.div_lt_iff_lt_mul hd).1 (Nat.lt_of_lt_of_le hlog hpow)

theorem le_of_doublings (num : Nat) {den : Nat} (hd : 0 < den) (h : doublings num den ≠ 0) :
    2 ^ (52 + doublings num den) * den ≤ num := by
  have hne : num / den ≠ 0 := by
    intro h0
    simp [doublings, h0] at h
  have hlog : 2 ^ (num / den).log2 ≤ num / den := Nat.log2_self_le hne
  have he : (num / den).log2 = 52 + doublings num den := by simp only [doublings] at h ⊢; omega
  rw [he] at hlog
  exact (Nat.le_div_iff_mul_le hd).1 hlog

/-- The ordinal nearest to `num / den` units, if it is in range. -/
def ordinalNear (num den : Nat) : Nat :=
  pairOrdinal (divRound num (den * 2 ^ doublings num den)) (doublings num den)

theorem nearest?_eq (num den : Nat) :
    nearest? num den =
      if h : ordinalNear (num * perOne) den < 2047 * 0x10000000000000 then some ⟨_, h⟩ else none :=
  rfl

/-- Only the quotient counts. -/
theorem nearest?_mul_right (num den : Nat) {k : Nat} (hk : 0 < k) :
    nearest? (num * k) (den * k) = nearest? num den := by
  have hdoublings : doublings (num * k * perOne) (den * k) = doublings (num * perOne) den := by
    rw [doublings, doublings, Nat.mul_right_comm, Nat.mul_div_mul_right _ _ hk]
  have hordinal : ordinalNear (num * k * perOne) (den * k) = ordinalNear (num * perOne) den := by
    rw [ordinalNear, ordinalNear, hdoublings, Nat.mul_right_comm num, Nat.mul_right_comm den,
      divRound_mul_right _ _ hk]
  simp only [nearest?_eq, hordinal]

section

variable {num den r e : Nat}

theorem ordinalNear_le (hd : 0 < den) (hp : IsPair r e) (h : num ≤ r * 2 ^ e * den) :
    ordinalNear num den ≤ pairOrdinal r e := by
  generalize hf : doublings num den = f
  have hlt := lt_of_doublings num hd
  have hle := le_of_doublings num hd
  have hpos : 0 < den * 2 ^ f := Nat.mul_pos hd (Nat.two_pow_pos f)
  simp only [ordinalNear, pairOrdinal, hf] at hlt hle ⊢
  have hr := hp.lt
  rcases Nat.lt_trichotomy f e with hfe | rfl | hfe
  · -- The binade of the quotient is a lower one, and the rounding reaches its end at most.
    have hround : divRound num (den * 2 ^ f) ≤ 2 ^ 53 := by
      refine divRound_le hpos (Nat.le_of_lt ?_)
      rw [Nat.pow_add] at hlt
      convert hlt using 1
      ring
    have := hp.normal
    omega
  · have hround : divRound num (den * 2 ^ f) ≤ r := divRound_le hpos (by convert h using 1; ring)
    omega
  · have hbinade : 2 ^ (53 + e) ≤ 2 ^ (52 + f) := Nat.pow_le_pow_right (by decide) (by omega)
    have hval : r * 2 ^ e < 2 ^ (53 + e) := by
      rw [Nat.pow_add]
      exact Nat.mul_lt_mul_of_pos_right hr (Nat.two_pow_pos e)
    have hcontra : r * 2 ^ e * den < 2 ^ (52 + f) * den :=
      Nat.mul_lt_mul_of_pos_right (Nat.lt_of_lt_of_le hval hbinade) hd
    have := hle (by omega)
    omega

theorem le_ordinalNear (hd : 0 < den) (hp : IsPair r e) (h : r * 2 ^ e * den ≤ num) :
    pairOrdinal r e ≤ ordinalNear num den := by
  generalize hf : doublings num den = f
  have hlt := lt_of_doublings num hd
  have hle := le_of_doublings num hd
  have hpos : 0 < den * 2 ^ f := Nat.mul_pos hd (Nat.two_pow_pos f)
  simp only [ordinalNear, pairOrdinal, hf] at hlt hle ⊢
  have hr := hp.lt
  rcases Nat.lt_trichotomy f e with hfe | rfl | hfe
  · have hbinade : 2 ^ (53 + f) ≤ 2 ^ (52 + e) := Nat.pow_le_pow_right (by decide) (by omega)
    have hval : 2 ^ (52 + e) ≤ r * 2 ^ e := by
      rw [Nat.pow_add]
      exact Nat.mul_le_mul_right _ (hp.normal.resolve_left (by omega))
    have hcontra : 2 ^ (53 + f) * den ≤ r * 2 ^ e * den :=
      Nat.mul_le_mul_right den (Nat.le_trans hbinade hval)
    omega
  · have hround : r ≤ divRound num (den * 2 ^ f) := le_divRound hpos (by convert h using 1; ring)
    omega
  · -- The binade of the quotient is a higher one, and the rounding stays in it.
    have hround : 2 ^ 52 ≤ divRound num (den * 2 ^ f) := by
      refine le_divRound hpos ?_
      have := hle (by omega)
      rw [Nat.pow_add] at this
      convert this using 1
      ring
    omega

end

theorem nearest?_le {num den : Nat} (hd : 0 < den) {y : Magnitude}
    (h : num * perOne ≤ y.units * den) :
    ∃ x, nearest? num den = some x ∧ x.ordinal ≤ y.ordinal := by
  obtain ⟨r, e, hp, hy⟩ := y.exists_pair
  rw [units_eq hp hy] at h
  have hle : ordinalNear (num * perOne) den ≤ y.ordinal := hy ▸ ordinalNear_le hd hp h
  rw [nearest?_eq, dif_pos (Nat.lt_of_le_of_lt hle y.lt)]
  exact ⟨_, rfl, hle⟩

theorem le_nearest? {num den : Nat} (hd : 0 < den) {x y : Magnitude}
    (hx : nearest? num den = some x) (h : y.units * den ≤ num * perOne) :
    y.ordinal ≤ x.ordinal := by
  obtain ⟨r, e, hp, hy⟩ := y.exists_pair
  rw [units_eq hp hy] at h
  have hle : y.ordinal ≤ ordinalNear (num * perOne) den := hy ▸ le_ordinalNear hd hp h
  rw [nearest?_eq] at hx
  split at hx
  · cases hx
    exact hle
  · cases hx

/-! ### Values -/

/-- The value of a magnitude. -/
def toRat (x : Magnitude) : ℚ := x.units / perOne

theorem perOne_pos_rat : (0 : ℚ) < perOne := Nat.cast_pos.2 perOne_pos

theorem toRat_nonneg (x : Magnitude) : 0 ≤ x.toRat :=
  div_nonneg (Nat.cast_nonneg _) (Nat.cast_nonneg _)

theorem units_eq_toRat (x : Magnitude) : (x.units : ℚ) = x.toRat * perOne :=
  (div_mul_cancel₀ _ perOne_pos_rat.ne').symm

/-- `r` comes of rounding `q`. -/
def Rounds (q : ℚ) (r : Option Magnitude) : Prop :=
  ∃ num den : Nat, 0 < den ∧ q = num / den ∧ r = nearest? num den

section

variable {q : ℚ} {r : Option Magnitude} {x y : Magnitude}

theorem rounds_toRat (x : Magnitude) : Rounds x.toRat (nearest? x.units perOne) :=
  ⟨x.units, perOne, perOne_pos, rfl, rfl⟩

theorem toRat_mul_le_iff {num den : Nat} (hd : 0 < den) :
    (num : ℚ) / den ≤ y.toRat ↔ num * perOne ≤ y.units * den := by
  have hd' : (0 : ℚ) < den := Nat.cast_pos.2 hd
  rw [toRat, div_le_div_iff₀ hd' perOne_pos_rat]
  norm_cast

theorem le_toRat_mul_iff {num den : Nat} (hd : 0 < den) :
    y.toRat ≤ (num : ℚ) / den ↔ y.units * den ≤ num * perOne := by
  have hd' : (0 : ℚ) < den := Nat.cast_pos.2 hd
  rw [toRat, div_le_div_iff₀ perOne_pos_rat hd']
  norm_cast

theorem nearest?_units (x : Magnitude) : nearest? x.units perOne = some x := by
  obtain ⟨y, hy, hle⟩ := nearest?_le perOne_pos (le_refl (x.units * perOne))
  have hge := le_nearest? perOne_pos hy (le_refl (x.units * perOne))
  rw [hy, ext (Nat.le_antisymm hle hge)]

theorem ordinal_le_iff : x.ordinal ≤ y.ordinal ↔ x.toRat ≤ y.toRat := by
  have forward : ∀ {x y : Magnitude}, x.toRat ≤ y.toRat → x.ordinal ≤ y.ordinal := by
    intro x y h
    obtain ⟨z, hz, hle⟩ := nearest?_le perOne_pos ((toRat_mul_le_iff perOne_pos).1 h)
    rw [nearest?_units] at hz
    cases hz
    exact hle
  refine ⟨fun h => ?_, forward⟩
  by_contra hlt
  have heq : x = y := ext (Nat.le_antisymm h (forward (le_of_not_ge hlt)))
  exact hlt (heq ▸ le_rfl)

theorem toRat_injective : Function.Injective toRat := fun _ _ h =>
  ext (Nat.le_antisymm (ordinal_le_iff.2 h.le) (ordinal_le_iff.2 h.ge))

theorem toRat_zero : zero.toRat = 0 := by
  have hunits : zero.units = 0 := by rw [units, zero, if_pos (by decide)]
  rw [toRat, hunits, Nat.cast_zero, zero_div]

theorem isZero_iff : x.isZero = true ↔ x.toRat = 0 := by
  rw [isZero, decide_eq_true_iff]
  refine ⟨fun h => ?_, fun h => ?_⟩
  · rw [ext (y := zero) h, toRat_zero]
  · rw [toRat_injective (h.trans toRat_zero.symm), zero]

namespace Rounds

theorem le (h : Rounds q r) (hq : q ≤ y.toRat) : ∃ x, r = some x ∧ x.toRat ≤ y.toRat := by
  obtain ⟨num, den, hd, rfl, rfl⟩ := h
  obtain ⟨x, hx, hle⟩ := nearest?_le hd ((toRat_mul_le_iff hd).1 hq)
  exact ⟨x, hx, ordinal_le_iff.1 hle⟩

theorem ge (h : Rounds q (some x)) (hq : y.toRat ≤ q) : y.toRat ≤ x.toRat := by
  obtain ⟨num, den, hd, rfl, hx⟩ := h
  exact ordinal_le_iff.1 (le_nearest? hd hx.symm ((le_toRat_mul_iff hd).1 hq))

theorem unique {r' : Option Magnitude} (h : Rounds q r) (h' : Rounds q r') : r = r' := by
  obtain ⟨num, den, hd, rfl, rfl⟩ := h
  obtain ⟨num', den', hd', hq, rfl⟩ := h'
  have hcross : num * den' = num' * den := by
    rw [div_eq_div_iff (Nat.cast_ne_zero.2 hd.ne') (Nat.cast_ne_zero.2 hd'.ne')] at hq
    exact_mod_cast hq
  rw [← nearest?_mul_right num den hd', hcross, Nat.mul_comm den, nearest?_mul_right num' den' hd]

theorem eq (h : Rounds y.toRat r) : r = some y := by
  obtain ⟨x, rfl, hle⟩ := h.le le_rfl
  rw [toRat_injective (le_antisymm hle (h.ge le_rfl))]

end Rounds

end

/-! ### Arithmetic -/

theorem rounds_ofNat (n : Nat) : Rounds n (ofNat? n) := ⟨n, 1, Nat.one_pos, by simp, rfl⟩

theorem rounds_mul (x y : Magnitude) : Rounds (x.toRat * y.toRat) (x.mul? y) := by
  refine ⟨x.units * y.units, perOne * perOne, Nat.mul_pos perOne_pos perOne_pos, ?_, rfl⟩
  rw [toRat, toRat, div_mul_div_comm, Nat.cast_mul, Nat.cast_mul]

theorem rounds_div (x : Magnitude) {y : Magnitude} (hy : 0 < y.toRat) :
    Rounds (x.toRat / y.toRat) (x.div? y) := by
  have hunits : 0 < y.units := by
    have : (0 : ℚ) < y.units := by
      rw [units_eq_toRat]
      exact mul_pos hy perOne_pos_rat
    exact_mod_cast this
  refine ⟨x.units, y.units, hunits, ?_, rfl⟩
  rw [toRat, toRat, div_div_div_cancel_right₀ perOne_pos_rat.ne']

theorem rounds_ofDecimal (c : Nat) (p : Int) : Rounds (c * 10 ^ p) (ofDecimal? c p) := by
  unfold ofDecimal?
  split
  · next hp =>
    lift p to Nat using hp
    have := rounds_ofNat (c * Nat.pow 10 p)
    simpa [ofNat?] using this
  · next hp =>
    obtain ⟨k, rfl⟩ : ∃ k : Nat, p = -k := ⟨(-p).toNat, by omega⟩
    refine ⟨c, Nat.pow 10 k, Nat.pow_pos (by decide), ?_, ?_⟩
    · simp [div_eq_mul_inv]
    · simp

/-! ### Values without rounding -/

/-- A number of up to 53 bits times a power of two is the value of a magnitude. -/
theorem exists_toRat {a b : Nat} (ha : a < 2 ^ 53) (hb : b ≤ 971) :
    ∃ x : Magnitude, x.toRat = a * 2 ^ b := by
  obtain ⟨n, hn⟩ : ∃ n, 1074 = n := ⟨_, rfl⟩
  obtain ⟨x, hx⟩ := exists_units (e := n + b) ha (by omega)
  refine ⟨x, ?_⟩
  rw [toRat, hx, perOne_eq hn, div_eq_iff (by positivity)]
  push_cast
  rw [pow_add]
  ring

theorem exists_toRat_nat {n : Nat} (h : n < 2 ^ 53) : ∃ x : Magnitude, x.toRat = n := by
  simpa using exists_toRat (b := 0) h (by decide)

end Magnitude

end ConfigGate
