import Mathlib
import ConfigGate.Decimal.Shortest
import ConfigGate.Proofs.Binary64.Rounding

/-!
# Shortest decimals

The decimal chosen for a magnitude rounds back to it, and it is less than one step of its grid away.
So no natural number lies between the two: it is a multiple of the step if this is a part of one,
and otherwise it would be rounded to itself.
-/

namespace ConfigGate.Magnitude

variable {x : Magnitude} {tie : Tie}

theorem ratio_spec (x : Magnitude) (p : Int) :
    0 < (x.ratio p).2 ∧ ((x.ratio p).1 : ℚ) / (x.ratio p).2 = x.toRat / 10 ^ p := by
  unfold ratio
  split
  · next hp =>
    lift p to Nat using hp
    refine ⟨Nat.mul_pos perOne_pos (Nat.pow_pos (by decide)), ?_⟩
    rw [toRat, div_div, zpow_natCast, Int.toNat_natCast, Nat.pow_eq]
    push_cast
    rfl
  · next hp =>
    obtain ⟨k, rfl⟩ : ∃ k : Nat, p = -k := ⟨p.natAbs, by omega⟩
    dsimp only
    refine ⟨perOne_pos, ?_⟩
    rw [toRat, zpow_neg, zpow_natCast, div_inv_eq_mul, neg_neg, Int.toNat_natCast, Nat.pow_eq]
    push_cast
    exact mul_div_right_comm _ _ _

theorem rounds_of_readsBack {c : Nat} {p : Int} (h : x.readsBack c p = true) :
    Rounds (c * 10 ^ p) (some x) := by
  have := rounds_ofDecimal c p
  rwa [show ofDecimal? c p = some x from of_decide_eq_true h] at this

theorem readsBack_of_eq {c : Nat} {p : Int} (h : (c : ℚ) * 10 ^ p = x.toRat) :
    x.readsBack c p = true := by
  have := rounds_ofDecimal c p
  rw [h] at this
  exact decide_eq_true this.eq

/-- Where the neighbour below is `x` itself, it is the one that is taken. -/
theorem readsBack_below {p : Int} (h : (x.ratio p).1 % (x.ratio p).2 = 0) :
    x.readsBack ((x.ratio p).1 / (x.ratio p).2) p = true := by
  obtain ⟨hd, hq⟩ := ratio_spec x p
  refine readsBack_of_eq ?_
  have hd' : ((x.ratio p).2 : ℚ) ≠ 0 := Nat.cast_ne_zero.2 hd.ne'
  rw [Nat.cast_div (Nat.dvd_of_mod_eq_zero h) hd', hq]
  exact div_mul_cancel₀ _ (by positivity)

theorem gridPoint?_cases {p : Int} {c : Nat} (h : gridPoint? tie x p = some c) :
    x.readsBack c p = true ∧ (c = (x.ratio p).1 / (x.ratio p).2 ∨
      c = (x.ratio p).1 / (x.ratio p).2 + 1 ∧ (x.ratio p).1 % (x.ratio p).2 ≠ 0) := by
  have hd := (ratio_spec x p).1
  have hbelow := @readsBack_below x p
  rw [gridPoint?] at h
  dsimp only at h
  generalize (x.ratio p).1 / (x.ratio p).2 = below at h hbelow ⊢
  generalize (x.ratio p).1 % (x.ratio p).2 = r at h hbelow ⊢
  split at h
  · next hb ha =>
    split_ifs at h with h₁ h₂
    · cases h
      exact ⟨hb, .inl rfl⟩
    · cases h
      exact ⟨ha, .inr ⟨rfl, by omega⟩⟩
    · cases tie with
      | up =>
        cases h
        exact ⟨ha, .inr ⟨rfl, by omega⟩⟩
      | even =>
        cases h
        rcases Nat.mod_two_eq_zero_or_one below with h0 | h1
        · rw [h0]
          exact ⟨hb, .inl rfl⟩
        · rw [h1]
          exact ⟨ha, .inr ⟨rfl, by omega⟩⟩
  · next hb ha =>
    cases h
    exact ⟨hb, .inl rfl⟩
  · next hb ha =>
    cases h
    refine ⟨ha, .inr ⟨rfl, fun hr => ?_⟩⟩
    rw [hbelow hr] at hb
    cases hb
  · cases h

/-- `c * 10 ^ p` rounds to `x` and is less than one step of its grid away. -/
structure Approximates (x : Magnitude) (c : Nat) (p : Int) : Prop where
  rounds : Rounds (c * 10 ^ p) (some x)
  above : (c : ℚ) < x.toRat / 10 ^ p + 1
  below : x.toRat / 10 ^ p < c + 1

theorem approximates_of_gridPoint? {p : Int} {c : Nat} (h : gridPoint? tie x p = some c) :
    x.Approximates c p := by
  obtain ⟨hread, hc⟩ := gridPoint?_cases h
  obtain ⟨hd, hq⟩ := ratio_spec x p
  generalize (x.ratio p).1 = num, (x.ratio p).2 = den at hd hc hq
  have hd' : (0 : ℚ) < den := Nat.cast_pos.2 hd
  have hmod := Nat.mod_lt num hd
  have hdiv := Nat.div_add_mod num den
  refine ⟨rounds_of_readsBack hread, ?_, ?_⟩
  · rw [← hq, ← sub_lt_iff_lt_add, lt_div_iff₀ hd', sub_mul, one_mul, sub_lt_iff_lt_add]
    have : c * den < num + den := by
      rcases hc with rfl | ⟨rfl, hr⟩
      · rw [Nat.mul_comm]
        omega
      · rw [Nat.add_mul, Nat.mul_comm, Nat.one_mul]
        omega
    exact_mod_cast this
  · rw [← hq, div_lt_iff₀ hd']
    have : num < (c + 1) * den := by
      rcases hc with rfl | ⟨rfl, -⟩
      · rw [Nat.add_mul, Nat.mul_comm, Nat.one_mul]
        omega
      · rw [Nat.add_mul, Nat.add_mul, Nat.mul_comm, Nat.one_mul]
        omega
    exact_mod_cast this

/-- The exact value as a decimal, for `n` binary places. -/
theorem units_mul_pow {n : Nat} (h : 1074 = n) :
    ((x.units * Nat.pow 5 n : Nat) : ℚ) * 10 ^ (-(n : Int)) = x.toRat := by
  have hten : (10 : ℚ) ^ n = 5 ^ n * 2 ^ n := by rw [← mul_pow]; norm_num
  rw [toRat, perOne_eq h, Nat.pow_eq, zpow_neg, zpow_natCast, hten]
  push_cast
  field_simp

theorem approximates_of_eq {c : Nat} {p : Int} (h : (c : ℚ) * 10 ^ p = x.toRat) :
    x.Approximates c p := by
  have hc : x.toRat / 10 ^ p = c := by
    rw [← h]
    exact mul_div_cancel_right₀ _ (by positivity)
  refine ⟨rounds_of_readsBack (readsBack_of_eq h), ?_, ?_⟩ <;> rw [hc] <;> linarith

/-- Whichever grid it is found on, or where it is found on none. -/
theorem approximates_shortest (tie : Tie) (x : Magnitude) :
    x.Approximates (x.shortest tie).1 (x.shortest tie).2 := by
  unfold shortest
  dsimp only
  split
  · next decimal h =>
    obtain ⟨n, -, hn⟩ := List.exists_of_findSome?_eq_some h
    obtain ⟨c, hc, rfl⟩ := Option.map_eq_some_iff.1 hn
    exact approximates_of_gridPoint? hc
  · exact approximates_of_eq (units_mul_pow rfl)

section

variable {c b : Nat} {p : Int}

theorem Approximates.le (h : x.Approximates c p) (hb : b + 1 < 2 ^ 53) (hx : x.toRat ≤ b) :
    (c : ℚ) * 10 ^ p ≤ b := by
  rcases le_or_gt 0 p with hp | hp
  · lift p to Nat using hp
    by_contra hlt
    -- A natural number above `b` is rounded to one above `b`.
    obtain ⟨y, hy⟩ := exists_toRat_nat hb
    have hle : b + 1 ≤ c * 10 ^ p := by
      rw [zpow_natCast, not_le] at hlt
      exact_mod_cast hlt
    have := h.rounds.ge (y := y) (by rw [hy, zpow_natCast]; exact_mod_cast hle)
    rw [hy] at this
    push_cast at this
    linarith
  · obtain ⟨k, rfl⟩ : ∃ k : Nat, p = -k := ⟨p.natAbs, by omega⟩
    have habove := h.above
    rw [zpow_neg, zpow_natCast] at habove ⊢
    rw [div_inv_eq_mul] at habove
    rw [← div_eq_mul_inv, div_le_iff₀ (by positivity)]
    have hlt : (c : ℚ) < b * 10 ^ k + 1 :=
      habove.trans_le (by gcongr)
    have : c < b * 10 ^ k + 1 := by exact_mod_cast hlt
    exact_mod_cast Nat.le_of_lt_succ this

theorem Approximates.ge (h : x.Approximates c p) (hb : b < 2 ^ 53) (hx : b ≤ x.toRat) :
    b ≤ (c : ℚ) * 10 ^ p := by
  rcases le_or_gt 0 p with hp | hp
  · lift p to Nat using hp
    by_contra hlt
    have hlt' : c * 10 ^ p < b := by
      rw [zpow_natCast, not_le] at hlt
      exact_mod_cast hlt
    obtain ⟨y, hy⟩ := exists_toRat_nat (n := c * 10 ^ p) (by omega)
    have hround := h.rounds
    rw [zpow_natCast, ← Nat.cast_ofNat, ← Nat.cast_pow, ← Nat.cast_mul, ← hy] at hround
    rw [Option.some.inj hround.eq, hy] at hx
    have : b ≤ c * 10 ^ p := by exact_mod_cast hx
    omega
  · obtain ⟨k, rfl⟩ : ∃ k : Nat, p = -k := ⟨p.natAbs, by omega⟩
    have hbelow := h.below
    rw [zpow_neg, zpow_natCast] at hbelow ⊢
    rw [div_inv_eq_mul] at hbelow
    rw [← div_eq_mul_inv, le_div_iff₀ (by positivity)]
    have hlt : (b : ℚ) * 10 ^ k < c + 1 :=
      lt_of_le_of_lt (by gcongr) hbelow
    have : b * 10 ^ k < c + 1 := by exact_mod_cast hlt
    exact_mod_cast Nat.le_of_lt_succ this

theorem Approximates.ne_zero (h : x.Approximates c p) (hx : x.isZero = false) : c ≠ 0 := by
  rintro rfl
  have hround := h.rounds
  rw [Nat.cast_zero, zero_mul, ← toRat_zero] at hround
  rw [Option.some.inj hround.eq] at hx
  exact absurd hx (by decide)

end

end ConfigGate.Magnitude
