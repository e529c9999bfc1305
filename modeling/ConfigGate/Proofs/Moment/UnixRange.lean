import Mathlib
import ConfigGate.Proofs.Binary64.Nearest
import ConfigGate.Proofs.Json.Float
import ConfigGate.Proofs.Moment.Unix

/-!
# The range of unix numbers

The nanoseconds of a number come of two roundings. Its product with the unit is rounded to the
nearest binary64 number, and this to the nearest integer, a half going away from zero
(`Unix.instant_eq_ok_iff`). Either keeps the order of numbers, and the first is off by a part in
2^53 at most even next to zero, where the product is exact. Seconds do not reach the ends of the
range, and of the milliseconds those are accepted that are in range once they are rounded
(`Unix.instant_finite`).
-/

namespace ConfigGate

open Magnitude (Rounds IsNearest)
open Binary64 (signedRat signedRat_true signedRat_false)

/-! ### The nearest integer -/

/-- `i` is the integer nearest to `q`, a half going away from zero. -/
structure IsNearestInteger (q : ℚ) (i : Int) : Prop where
  near : ∀ j : Int, |q - i| ≤ |q - j|
  away : ∀ j : Int, |q - j| = |q - i| → |j| ≤ |i|

namespace IsNearestInteger

variable {q z : ℚ} {i j : Int}

theorem abs_sub_le_half (h : IsNearestInteger q i) : |q - i| ≤ 1 / 2 :=
  (h.near (round q)).trans (abs_sub_round q)

theorem neg (h : IsNearestInteger q i) : IsNearestInteger (-q) (-i) := by
  have hdist : ∀ j : Int, |-q - j| = |q - (-j : Int)| := by
    intro j
    rw [← abs_neg]
    push_cast
    ring_nf
  refine ⟨fun j => ?_, fun j hj => ?_⟩
  · rw [hdist, hdist, neg_neg]
    exact h.near _
  · rw [hdist, hdist, neg_neg] at hj
    have := h.away _ hj
    rwa [abs_neg] at this ⊢

theorem mono (hi : IsNearestInteger q i) (hj : IsNearestInteger z j) (hqz : q ≤ z) : i ≤ j := by
  by_contra hlt
  rw [not_le] at hlt
  have hlt' : (j : ℚ) < i := by exact_mod_cast hlt
  have h₁ := hi.near j
  have h₂ := hj.near i
  -- `q` is nearer to `i` and `z` to `j`, so that both are half way between them.
  have hq := add_le_of_abs_sub_le hlt' h₁
  have hz := le_add_of_abs_sub_le hlt' h₂
  obtain rfl : q = z := by linarith
  have habs : |i| = |j| :=
    le_antisymm (hj.away i (le_antisymm h₁ h₂)) (hi.away j (le_antisymm h₂ h₁))
  -- Half way between opposite integers is zero.
  rcases abs_eq_abs.1 habs with h | h
  · exact hlt.ne h.symm
  · have hzero : q = 0 := by
      rw [h] at hq hz
      push_cast at hq hz
      linarith
    have := hi.near 0
    rw [hzero, Int.cast_zero, sub_zero, abs_zero] at this
    have hi' : (i : ℚ) = 0 := by simpa using abs_nonpos_iff.1 this
    have hi'' : i = 0 := by exact_mod_cast hi'
    omega

theorem unique (hi : IsNearestInteger q i) (hj : IsNearestInteger q j) : i = j :=
  le_antisymm (hi.mono hj le_rfl) (hj.mono hi le_rfl)

theorem of_natCast {k : Nat} (hq : 0 ≤ q) (hlow : (k : ℚ) ≤ q + 1 / 2) (hhigh : q + 1 / 2 < k + 1) :
    IsNearestInteger q k := by
  refine ⟨fun j => ?_, fun j heq => ?_⟩
  · rw [Int.cast_natCast]
    by_cases hj : j = k
    · rw [hj, Int.cast_natCast]
    · have hnear : |q - k| ≤ 1 / 2 := by
        rw [abs_le]
        constructor <;> linarith
      have hone := one_le_abs_sub (Ne.symm hj)
      have htri := abs_sub_le (k : ℚ) q j
      rw [Int.cast_natCast] at hone
      rw [abs_sub_comm (k : ℚ) q] at htri
      linarith
  · rw [Int.cast_natCast] at heq
    -- `j` is `k`, or as far from `q` on the other side.
    have hj : -(k : ℚ) ≤ j ∧ (j : ℚ) < k + 1 := by
      rcases abs_eq_abs.1 heq with h | h <;> constructor <;> linarith
    rw [Nat.abs_cast, abs_le]
    constructor
    · exact_mod_cast hj.1
    · exact Int.le_of_lt_add_one (by exact_mod_cast hj.2)

end IsNearestInteger

namespace Magnitude

theorem round_bounds (p : Magnitude) :
    (p.round : ℚ) ≤ p.toRat + 1 / 2 ∧ p.toRat + 1 / 2 < p.round + 1 := by
  have hP := perOne_pos
  have hP' := perOne_pos_rat
  have hlow := Nat.div_mul_le_self (2 * p.units + perOne) (2 * perOne)
  have hhigh := Nat.lt_div_mul_add (a := 2 * p.units + perOne) (b := 2 * perOne) (by omega)
  have hunits := p.units_eq_toRat
  rw [round]
  generalize (2 * p.units + perOne) / (2 * perOne) = k at *
  generalize perOne = P at *
  have hlow' : (k : ℚ) * (2 * P) ≤ 2 * p.units + P := by exact_mod_cast hlow
  have hhigh' : (2 : ℚ) * p.units + P < k * (2 * P) + 2 * P := by exact_mod_cast hhigh
  rw [hunits] at hlow' hhigh'
  constructor
  · refine le_of_mul_le_mul_right ?_ hP'
    linarith
  · refine lt_of_mul_lt_mul_right ?_ hP'.le
    linarith

theorem isNearestInteger_round (s : Bool) (p : Magnitude) :
    IsNearestInteger (signedRat s p) (if s then -(p.round : Int) else p.round) := by
  obtain ⟨hlow, hhigh⟩ := p.round_bounds
  have h := IsNearestInteger.of_natCast p.toRat_nonneg hlow hhigh
  cases s with
  | true =>
    rw [signedRat_true, if_pos rfl]
    exact h.neg
  | false =>
    rw [signedRat_false, if_neg Bool.false_ne_true]
    exact h

/-- Rounding keeps the order of signed products. -/
theorem signedRat_mono {s s' : Bool} {x y p p' : Magnitude} {u : ℚ} (hu : 0 ≤ u)
    (hp : Rounds (x.toRat * u) (some p)) (hp' : Rounds (y.toRat * u) (some p'))
    (h : signedRat s x ≤ signedRat s' y) : signedRat s p ≤ signedRat s' p' := by
  have hproduct : ∀ (s : Bool) (x : Magnitude),
      (if s then -(x.toRat * u) else x.toRat * u) = signedRat s x * u := by
    intro s x
    rw [signedRat, ite_mul, neg_mul]
  refine hp.signed_mono hp' (mul_nonneg x.toRat_nonneg hu) (mul_nonneg y.toRat_nonneg hu) ?_
  rw [hproduct, hproduct]
  exact mul_le_mul_of_nonneg_right h hu

end Magnitude

namespace Unix

variable {s : Bool} {x : Magnitude} {t : Instant}

/-- The nanoseconds in the unit of a number. -/
def scale (n : ℚ) : ℚ := if |n| ≤ 20000000000 then 1000000000 else 1000000

theorem unit_eq_scale (s : Bool) (x : Magnitude) : (unit x : ℚ) = scale (signedRat s x) := by
  have hiff : millisecondsAbove * Magnitude.perOne < x.units ↔ 20000000000 < x.toRat := by
    rw [Magnitude.toRat, lt_div_iff₀ Magnitude.perOne_pos_rat, millisecondsAbove]
    exact_mod_cast Iff.rfl
  rw [unit, scale, Binary64.abs_signedRat]
  by_cases h : 20000000000 < x.toRat
  · rw [if_pos (hiff.2 h), if_neg (not_le.2 h)]
    norm_num
  · rw [if_neg (mt hiff.1 h), if_pos (not_lt.1 h)]
    norm_num

/-- The product in binary64 rounded to an integer. -/
theorem nanoseconds?_eq (x : Magnitude) :
    ∃ r, Rounds (x.toRat * unit x) r ∧
      ∀ s, nanoseconds? s x = r.map fun p => if s then -(p.round : Int) else p.round := by
  obtain ⟨u, hunit, hu⟩ := exists_ofNat?_unit x
  have hr := Magnitude.rounds_mul x u
  rw [hu] at hr
  refine ⟨_, hr, fun s => ?_⟩
  rw [nanoseconds?, hunit, Option.bind_eq_bind, Option.bind_some]
  cases x.mul? u <;> rfl

theorem instantAt_eq_ok_iff {n : Option Int} : instantAt n = .ok t ↔ n = some t.nanoseconds := by
  rcases n with - | n
  · constructor <;> intro h <;> cases h
  · rw [instantAt, Instant.ofNanoseconds?]
    by_cases hn : -377705023201000000000 ≤ n ∧ n < 253402207201000000000
    · rw [dif_pos hn]
      constructor
      · intro h
        cases h
        rfl
      · intro h
        cases h
        rfl
    · rw [dif_neg hn]
      constructor
      · intro h
        cases h
      · intro h
        cases h
        exact absurd t.inRange hn

/-- A number is accepted at the instant that the two roundings lead to. -/
theorem instant_eq_ok_iff : instant (.finite s x) = .ok t ↔
    ∃ p, Rounds (x.toRat * unit x) (some p) ∧
      IsNearestInteger (signedRat s p) t.nanoseconds := by
  obtain ⟨r, hr, hn⟩ := nanoseconds?_eq x
  rw [instant, instantAt_eq_ok_iff, hn, Option.map_eq_some_iff]
  constructor
  · rintro ⟨p, rfl, hp⟩
    exact ⟨p, hr, hp ▸ p.isNearestInteger_round s⟩
  · rintro ⟨p, hp, hint⟩
    exact ⟨p, hr.unique hp, (p.isNearestInteger_round s).unique hint⟩

/-- An integer of nanoseconds that an instant can have. -/
def InRange (i : Int) : Prop := -377705023201000000000 ≤ i ∧ i < 253402207201000000000

section

variable {r : Option Magnitude}

/-- A number is accepted if it has a product in binary64 that is in range once it is rounded. -/
theorem exists_instant_iff (hr : Rounds (x.toRat * unit x) r) :
    (∃ t, instant (.finite s x) = .ok t) ↔
      ∃ p i, r = some p ∧ IsNearestInteger (signedRat s p) i ∧ InRange i := by
  constructor
  · rintro ⟨t, ht⟩
    obtain ⟨p, hp, hint⟩ := instant_eq_ok_iff.1 ht
    exact ⟨p, t.nanoseconds, hr.unique hp, hint, t.inRange⟩
  · rintro ⟨p, i, rfl, hint, hi⟩
    exact ⟨⟨i, hi⟩, instant_eq_ok_iff.2 ⟨p, hr, hint⟩⟩

theorem exists_error_iff_not_exists_ok :
    (∃ fault, instant (.finite s x) = .error fault) ↔ ¬ ∃ t, instant (.finite s x) = .ok t := by
  cases instant (.finite s x) with
  | error fault =>
    refine iff_of_true ⟨fault, rfl⟩ ?_
    rintro ⟨t, ht⟩
    cases ht
  | ok t =>
    refine iff_of_false ?_ (not_not.2 ⟨t, rfl⟩)
    rintro ⟨fault, h⟩
    cases h

theorem exists_error_iff (hr : Rounds (x.toRat * unit x) r) :
    (∃ fault, instant (.finite s x) = .error fault) ↔
      r = none ∨ ∃ p i, r = some p ∧ IsNearestInteger (signedRat s p) i ∧ ¬ InRange i := by
  rw [exists_error_iff_not_exists_ok, exists_instant_iff hr]
  rcases r with - | p
  · refine iff_of_true ?_ (.inl rfl)
    rintro ⟨p, i, hp, -⟩
    cases hp
  · constructor
    · intro h
      have hint := p.isNearestInteger_round s
      exact .inr ⟨p, _, rfl, hint, fun hi => h ⟨p, _, rfl, hint, hi⟩⟩
    · rintro (h | ⟨p, i, hp, hint, hi⟩) ⟨p', i', hp', hint', hi'⟩
      · cases h
      · cases hp
        cases hp'
        exact hi (hint.unique hint' ▸ hi')

end

/-- The nanoseconds of seconds are at most 2 * 10^19, which is a binary64 number. -/
theorem exists_instant_seconds (h : x.toRat ≤ 20000000000) :
    ∃ t, instant (.finite s x) = .ok t := by
  have hscale : (unit x : ℚ) = 1000000000 := by
    rw [unit_eq_scale s x, scale, Binary64.abs_signedRat, if_pos h]
  obtain ⟨r, hr, -⟩ := nanoseconds?_eq x
  obtain ⟨y, hy⟩ := Magnitude.exists_toRat (a := 38146972656250) (b := 19) (by norm_num)
    (by norm_num)
  have hy' : y.toRat = 20000000000000000000 := by
    rw [hy]
    norm_num
  obtain ⟨p, rfl, hp⟩ := hr.le (y := y) (by rw [hy', hscale]; linarith)
  rw [hy'] at hp
  refine (exists_instant_iff hr).2 ⟨p, _, rfl, p.isNearestInteger_round s, ?_⟩
  have hround : p.round ≤ 20000000000000000000 := by
    have hlow := p.round_bounds.1
    have hlt : (p.round : ℚ) < (20000000000000000001 : Nat) := by
      push_cast
      linarith
    exact Nat.le_of_lt_succ (Nat.cast_lt.1 hlt)
  rw [InRange]
  generalize p.round = k at hround
  split <;> omega

/-- What is beyond the integers of 128 bits is out of range. -/
theorem not_inRange {p : Magnitude} {i : Int} (hp : 2 ^ 127 ≤ p.toRat)
    (h : IsNearestInteger (signedRat s p) i) : ¬ InRange i := by
  rintro ⟨hlow, hhigh⟩
  have hlow' : (-377705023201000000000 : ℚ) ≤ i := by exact_mod_cast hlow
  have hhigh' : (i : ℚ) < 253402207201000000000 := by exact_mod_cast hhigh
  obtain ⟨h₁, h₂⟩ := abs_le.1 h.abs_sub_le_half
  norm_num at hp
  cases s with
  | true =>
    rw [signedRat_true] at h₁ h₂
    linarith
  | false =>
    rw [signedRat_false] at h₁ h₂
    linarith

/-- Half a nanosecond of the second rounding, and a part in 2^53 of the first. -/
theorem instant_near (h : instant (.finite s x) = .ok t) :
    |t.nanoseconds - signedRat s x * scale (signedRat s x)| ≤
      |signedRat s x * scale (signedRat s x)| / 2 ^ 53 + 1 / 2 := by
  obtain ⟨p, hp, hint⟩ := instant_eq_ok_iff.1 h
  have hwhole : x.toRat * unit x * Magnitude.perOne = (x.units * unit x : Nat) := by
    push_cast
    rw [x.units_eq_toRat]
    ring
  have hnear := hp.near hwhole
  have hhalf := hint.abs_sub_le_half
  have hsigned : |signedRat s p - signedRat s x * unit x| = |p.toRat - x.toRat * unit x| := by
    cases s with
    | true =>
      rw [signedRat_true, signedRat_true, ← abs_neg]
      ring_nf
    | false => rw [signedRat_false, signedRat_false]
  have hsize : |signedRat s x * unit x| = x.toRat * unit x := by
    rw [abs_mul, Binary64.abs_signedRat, Nat.abs_cast]
  rw [← unit_eq_scale, hsize]
  have htri := abs_sub_le (t.nanoseconds : ℚ) (signedRat s p) (signedRat s x * unit x)
  rw [hsigned, abs_sub_comm (t.nanoseconds : ℚ) (signedRat s p)] at htri
  linarith

/-- Both numbers are seconds, or both are milliseconds of one sign. -/
def SameUnit (n m : ℚ) : Prop :=
  |n| ≤ 20000000000 ∧ |m| ≤ 20000000000 ∨ 20000000000 < n ∧ 20000000000 < m ∨
    n < -20000000000 ∧ m < -20000000000

theorem SameUnit.scale_eq {n m : ℚ} (h : SameUnit n m) : scale n = scale m := by
  rw [scale, scale]
  rcases h with ⟨hn, hm⟩ | ⟨hn, hm⟩ | ⟨hn, hm⟩
  · rw [if_pos hn, if_pos hm]
  · rw [if_neg (not_le.2 (lt_abs.2 (.inl hn))), if_neg (not_le.2 (lt_abs.2 (.inl hm)))]
  · rw [if_neg (not_le.2 (lt_abs.2 (.inr (by linarith)))),
      if_neg (not_le.2 (lt_abs.2 (.inr (by linarith))))]

theorem instant_mono {s' : Bool} {y : Magnitude} {t' : Instant}
    (hunit : SameUnit (signedRat s x) (signedRat s' y)) (hle : signedRat s x ≤ signedRat s' y)
    (h : instant (.finite s x) = .ok t) (h' : instant (.finite s' y) = .ok t') :
    t.nanoseconds ≤ t'.nanoseconds := by
  obtain ⟨p, hp, hint⟩ := instant_eq_ok_iff.1 h
  obtain ⟨p', hp', hint'⟩ := instant_eq_ok_iff.1 h'
  have hscale : (unit y : ℚ) = unit x := by
    rw [unit_eq_scale s x, unit_eq_scale s' y, hunit.scale_eq]
  rw [hscale] at hp'
  exact hint.mono hint' (Magnitude.signedRat_mono (Nat.cast_nonneg _) hp hp' hle)

/-- What becomes of a finite number. Seconds are always accepted, and milliseconds if and only if
their nanoseconds, rounded twice, are in range. What they are off by is a part in 2^53 and half a
nanosecond at most, and within a unit instants are in the order of the numbers. -/
theorem instant_finite (s : Bool) (x : Magnitude) :
    (|signedRat s x| ≤ 20000000000 → ∃ t, instant (.finite s x) = .ok t) ∧
    (20000000000 < |signedRat s x| → ∀ r, IsNearest (x.toRat * 1000000) r →
      ((∃ t, instant (.finite s x) = .ok t) ↔
        ∃ p i, r = some p ∧ IsNearestInteger (signedRat s p) i ∧ InRange i) ∧
      ((∃ fault, instant (.finite s x) = .error fault) ↔
        r = none ∨ ∃ p i, r = some p ∧ IsNearestInteger (signedRat s p) i ∧ ¬ InRange i) ∧
      ((∃ p, r = some p ∧ 2 ^ 127 ≤ p.toRat) →
        ∃ fault, instant (.finite s x) = .error fault)) ∧
    (∀ t, instant (.finite s x) = .ok t →
      (∃ p, IsNearest (x.toRat * scale (signedRat s x)) (some p) ∧
        IsNearestInteger (signedRat s p) t.nanoseconds) ∧
      |t.nanoseconds - signedRat s x * scale (signedRat s x)| ≤
        |signedRat s x * scale (signedRat s x)| / 2 ^ 53 + 1 / 2) ∧
    ∀ s' y t t', SameUnit (signedRat s x) (signedRat s' y) → signedRat s x ≤ signedRat s' y →
      instant (.finite s x) = .ok t → instant (.finite s' y) = .ok t' →
      t.nanoseconds ≤ t'.nanoseconds := by
  rw [Binary64.abs_signedRat]
  refine ⟨exists_instant_seconds, fun hlarge r hr => ?_, fun t ht => ⟨?_, instant_near ht⟩,
    fun s' y t t' => instant_mono⟩
  · have hscale : (unit x : ℚ) = 1000000 := by
      rw [unit_eq_scale s x, scale, Binary64.abs_signedRat, if_neg (not_le.2 hlarge)]
    have hproduct : 0 ≤ x.toRat * unit x := mul_nonneg x.toRat_nonneg (Nat.cast_nonneg _)
    rw [← hscale, ← Magnitude.rounds_iff_isNearest hproduct] at hr
    refine ⟨exists_instant_iff hr, exists_error_iff hr, ?_⟩
    rintro ⟨p, rfl, hp⟩
    have hint := p.isNearestInteger_round s
    exact (exists_error_iff hr).2 (.inr ⟨p, _, rfl, hint, not_inRange hp hint⟩)
  · obtain ⟨p, hp, hint⟩ := instant_eq_ok_iff.1 ht
    rw [unit_eq_scale s x] at hp
    exact ⟨p, hp.isNearest, hint⟩

/-- The last number of seconds. -/
theorem instant_finite_last_second :
    ∃ x : Magnitude, x.toRat = 20000000000 ∧ ∃ t, instant (.finite false x) = .ok t := by
  obtain ⟨x, hx⟩ := Magnitude.exists_toRat_nat (n := 20000000000) (by norm_num)
  refine ⟨x, by exact_mod_cast hx, (instant_finite false x).1 ?_⟩
  rw [Binary64.abs_signedRat, hx]
  norm_num

end Unix

end ConfigGate
