import Mathlib
import ConfigGate.Proofs.Binary64.Error

/-!
# The nearest binary64 number

`IsNearest q r` says what rounding is without saying how it is done: no magnitude is nearer to `q`
than `r`, and where another one is as near `r` has an even ordinal. `r` is none from half a step
beyond the largest magnitude on. For every `q` that is not negative there is one such `r`, and it is
what comes of rounding `q` (`rounds_iff_isNearest`). So rounding keeps the order of any two numbers
(`Rounds.mono`), and what is rounded to `x` is an interval (`Rounds.convex`), which reaches at least
a part in 2^54 to both sides of `x` (`rounds_of_near`).
-/

namespace ConfigGate

/-! ### Distances on the line -/

theorem one_le_abs_sub {i j : Int} (h : i ≠ j) : (1 : ℚ) ≤ |(i : ℚ) - j| := by
  have : (1 : Int) ≤ |i - j| := Int.one_le_abs (sub_ne_zero.2 h)
  exact_mod_cast this

theorem one_le_abs_sub_nat {m n : Nat} (h : m ≠ n) : (1 : ℚ) ≤ |(m : ℚ) - n| :=
  one_le_abs_sub (Nat.cast_injective.ne h : (m : Int) ≠ n)

/-- What is not nearer to the lesser of two numbers is not below the middle. -/
theorem add_le_of_abs_sub_le {q a b : ℚ} (hab : a < b) (h : |q - b| ≤ |q - a|) : a + b ≤ 2 * q := by
  have := sq_le_sq.2 h
  nlinarith

theorem le_add_of_abs_sub_le {q a b : ℚ} (hab : a < b) (h : |q - a| ≤ |q - b|) : 2 * q ≤ a + b := by
  have := sq_le_sq.2 h
  nlinarith

/-! ### Rounding to natural numbers -/

/-- `r` is a natural number nearest to `t`, the even one of two. -/
structure RoundsEven (t : ℚ) (r : Nat) : Prop where
  near : |t - r| ≤ 1 / 2
  even : |t - r| = 1 / 2 → Even r

theorem even_divRound_of_tie (num : Nat) {den : Nat} (hd : 0 < den)
    (h : 2 * (divRound num den * den) = 2 * num + den ∨
      2 * num = 2 * (divRound num den * den) + den) : Even (divRound num den) := by
  have hdiv := Nat.div_add_mod num den
  have hlt := Nat.mod_lt num hd
  rw [Nat.even_iff]
  unfold divRound at h ⊢
  dsimp only at h ⊢
  generalize num / den = q at *
  generalize num % den = r at *
  have hsucc : (q + 1) * den = den * q + den := by ring
  have hq : q * den = den * q := Nat.mul_comm q den
  split_ifs at h ⊢ with h₁ h₂
  · rw [hq] at h
    omega
  · rw [hsucc] at h
    omega
  · omega

theorem roundsEven_divRound (num : Nat) {den : Nat} (hd : 0 < den) :
    RoundsEven (num / den) (divRound num den) := by
  obtain ⟨hle, hge⟩ := divRound_mul_near num hd
  have htie := even_divRound_of_tie num hd
  have hd' : (0 : ℚ) < den := Nat.cast_pos.2 hd
  generalize divRound num den = r at *
  have hsub : (num : ℚ) / den - r = (num - r * den) / den := by field_simp
  have hle' : 2 * ((r : ℚ) * den) ≤ 2 * num + den := by exact_mod_cast hle
  have hge' : 2 * (num : ℚ) ≤ 2 * (r * den) + den := by exact_mod_cast hge
  refine ⟨?_, fun h => htie ?_⟩
  · rw [hsub, abs_le, le_div_iff₀ hd', div_le_iff₀ hd']
    constructor <;> linarith
  · rw [hsub, abs_div, abs_of_pos hd', div_eq_iff hd'.ne'] at h
    rcases abs_choice ((num : ℚ) - r * den) with habs | habs
    · rw [habs] at h
      refine .inr ?_
      have : 2 * (num : ℚ) = 2 * (r * den) + den := by linarith
      exact_mod_cast this
    · rw [habs] at h
      refine .inl ?_
      have : 2 * ((r : ℚ) * den) = 2 * num + den := by linarith
      exact_mod_cast this

/-- No other natural number is nearer, and if one is as near it is a tie. -/
theorem RoundsEven.lt_or_eq {t : ℚ} {r n : Nat} (h : RoundsEven t r) (hne : n ≠ r) :
    |t - r| < |t - n| ∨ |t - r| = |t - n| ∧ Even r := by
  have hone := one_le_abs_sub_nat hne
  have htri : |(n : ℚ) - r| ≤ |t - r| + |t - n| := by
    have := abs_sub_le (n : ℚ) t r
    rw [abs_sub_comm (n : ℚ) t] at this
    linarith
  have hnear := h.near
  rcases lt_or_eq_of_le hnear with hlt | heq
  · left
    linarith
  · rcases lt_or_eq_of_le (show |t - r| ≤ |t - n| by linarith) with hlt | heq'
    · exact .inl hlt
    · exact .inr ⟨heq', h.even heq⟩

theorem RoundsEven.lt_iff {t : ℚ} {r n : Nat} (h : RoundsEven t r) (hn : Even n) :
    r < n ↔ t < n - 1 / 2 := by
  obtain ⟨hlow, hhigh⟩ := abs_le.1 h.near
  constructor
  · intro hlt
    have hle : (r : ℚ) + 1 ≤ n := by exact_mod_cast hlt
    refine lt_of_le_of_ne (by linarith) fun heq => ?_
    -- A tie with an even number is decided for it.
    have hr : (r : ℚ) + 1 = n := by linarith
    have hodd : r + 1 = n := by exact_mod_cast hr
    have heven := h.even (by rw [show t - r = 1 / 2 by linarith, abs_of_pos (by norm_num)])
    rw [Nat.even_iff] at hn heven
    omega
  · intro hlt
    have : (r : ℚ) < n := by linarith
    exact_mod_cast this

namespace Magnitude

/-! ### Steps -/

/-- The distance from one magnitude to the next where it has doubled `e` times. -/
def step (e : Nat) : ℚ := 2 ^ e / perOne

theorem step_pos (e : Nat) : 0 < step e := div_pos (by positivity) perOne_pos_rat

/-- Distances counted in steps. -/
theorem abs_sub_mul_step (q : ℚ) (n e : Nat) : |q - n * step e| = |q / step e - n| * step e := by
  have hs := step_pos e
  rw [← abs_of_pos hs, ← abs_mul, abs_of_pos hs, sub_mul, div_mul_cancel₀ _ hs.ne']

theorem toRat_eq_mul_step {x : Magnitude} {n e : Nat} (h : x.units = n * 2 ^ e) :
    x.toRat = n * step e := by
  rw [toRat, step, h]
  push_cast
  exact mul_div_assoc _ _ _

theorem units_eq_of_normal {x : Magnitude} {r e : Nat} (hnormal : e = 0 ∨ 2 ^ 52 ≤ r)
    (hr : r ≤ 2 ^ 53) (hx : x.ordinal = pairOrdinal r e) : x.units = r * 2 ^ e := by
  rcases Nat.lt_or_eq_of_le hr with hlt | rfl
  · exact units_eq ⟨hlt, hnormal⟩ hx
  · exact units_eq_of_le (by decide) le_rfl hx

theorem even_pairOrdinal (r e : Nat) : Even (pairOrdinal r e) ↔ Even r := by
  rw [pairOrdinal, Nat.even_iff, Nat.even_iff]
  omega

/-- A value is a number of steps, or half a step or more below the numbers that have this step. -/
theorem multiple_or_lt (y : Magnitude) (e : Nat) :
    (∃ n : Nat, y.toRat = n * step e) ∨ e ≠ 0 ∧ y.toRat + step e / 2 ≤ 2 ^ 52 * step e := by
  obtain ⟨r, f, hpair, hy⟩ := y.exists_pair
  have hunits := units_eq hpair hy
  rcases Nat.lt_or_ge f e with hfe | hef
  · refine .inr ⟨by omega, ?_⟩
    obtain ⟨k, rfl⟩ : ∃ k, e = k + 1 := ⟨e - 1, by omega⟩
    have hr := hpair.lt
    have hpow : 2 ^ f ≤ 2 ^ k := Nat.pow_le_pow_right (by decide) (by omega)
    have hle : r * 2 ^ f ≤ (2 ^ 53 - 1) * 2 ^ k := Nat.mul_le_mul (by omega) hpow
    have hle' : (y.units : ℚ) + 2 ^ k ≤ 2 ^ 52 * 2 ^ (k + 1) := by
      have : r * 2 ^ f + 2 ^ k ≤ 2 ^ 52 * 2 ^ (k + 1) := by
        rw [pow_succ]
        omega
      rw [hunits]
      exact_mod_cast this
    have hhalf : step (k + 1) / 2 = 2 ^ k / perOne := by
      rw [step, pow_succ]
      ring
    rw [hhalf, toRat, step, ← add_div, ← mul_div_assoc, div_le_div_iff_of_pos_right perOne_pos_rat]
    exact hle'
  · refine .inl ⟨r * 2 ^ (f - e), toRat_eq_mul_step ?_⟩
    rw [hunits, mul_assoc, ← pow_add, Nat.sub_add_cancel hef]

/-- The ordinal nearest to `u / den` units: the binade of the quotient, and its place in it. -/
theorem exists_place (u : Nat) {den : Nat} (hd : 0 < den) :
    ∃ r e : Nat, ordinalNear u den = pairOrdinal r e ∧ r ≤ 2 ^ 53 ∧
      (e = 0 ∨ 2 ^ 52 ≤ r ∧ 2 ^ 52 * (den * 2 ^ e) ≤ u) ∧ u < 2 ^ 53 * (den * 2 ^ e) ∧
      RoundsEven (u / (den * 2 ^ e : Nat)) r := by
  have hhigh := lt_of_doublings u hd
  have hlow := le_of_doublings u hd
  refine ⟨divRound u (den * 2 ^ doublings u den), doublings u den, rfl, ?_⟩
  generalize doublings u den = e at *
  have hpos : 0 < den * 2 ^ e := Nat.mul_pos hd (Nat.two_pow_pos e)
  rw [Nat.pow_add, Nat.mul_assoc, Nat.mul_comm (2 ^ e)] at hhigh hlow
  refine ⟨divRound_le hpos hhigh.le, ?_, hhigh, roundsEven_divRound u hpos⟩
  rcases Nat.eq_zero_or_pos e with he | he
  · exact .inl he
  · exact .inr ⟨le_divRound hpos (hlow he.ne'), hlow he.ne'⟩

theorem quotient_div_step (num e : Nat) {den : Nat} (hd : 0 < den) :
    (num : ℚ) / den / step e = (num * perOne : Nat) / (den * 2 ^ e : Nat) := by
  have hP := perOne_pos_rat
  have hd' : (0 : ℚ) < den := Nat.cast_pos.2 hd
  rw [step]
  push_cast
  field_simp

/-- What is rounded to `x` is rounded to a number of steps. -/
theorem Rounds.exists_steps {q : ℚ} {x : Magnitude} (h : Rounds q (some x)) :
    ∃ r e : Nat, x.toRat = r * step e ∧ (Even x.ordinal ↔ Even r) ∧ RoundsEven (q / step e) r ∧
      (e = 0 ∨ 2 ^ 52 * step e ≤ q) := by
  obtain ⟨num, den, hd, rfl, hx⟩ := h
  rw [nearest?_eq] at hx
  split at hx
  · next hlt =>
    cases hx
    obtain ⟨r, e, hordinal, hr, hnormal, -, hround⟩ := exists_place (num * perOne) hd
    refine ⟨r, e, toRat_eq_mul_step (units_eq_of_normal (hnormal.imp id And.left) hr hordinal), ?_,
      ?_, hnormal.imp id fun hle => ?_⟩
    · show Even (ordinalNear (num * perOne) den) ↔ Even r
      rw [hordinal, even_pairOrdinal]
    · rwa [quotient_div_step num e hd]
    · have hpos : 0 < den * 2 ^ e := Nat.mul_pos hd (Nat.two_pow_pos e)
      rw [← le_div_iff₀ (step_pos e), quotient_div_step num e hd, le_div_iff₀ (Nat.cast_pos.2 hpos)]
      exact_mod_cast hle.2
  · cases hx

/-! ### The nearest magnitude -/

/-- Half a step beyond the largest magnitude. -/
def overflow : ℚ := (2 ^ 54 - 1) * 2 ^ 970

/-- `r` is the magnitude nearest to `q`, the one with an even ordinal of two, and none if `q` is out
of range. -/
def IsNearest (q : ℚ) : Option Magnitude → Prop
  | some x => q < overflow ∧ ∀ y, y ≠ x →
      |q - x.toRat| < |q - y.toRat| ∨ |q - x.toRat| = |q - y.toRat| ∧ Even x.ordinal
  | none => overflow ≤ q

section

variable {q : ℚ} {x y : Magnitude}

theorem Rounds.lt_or_eq (h : Rounds q (some x)) (hne : y ≠ x) :
    |q - x.toRat| < |q - y.toRat| ∨ |q - x.toRat| = |q - y.toRat| ∧ Even x.ordinal := by
  obtain ⟨r, e, hx, heven, hround, hstart⟩ := h.exists_steps
  have hs := step_pos e
  have hnearest : ∀ n : Nat, n ≠ r → |q - x.toRat| < |q - n * step e| ∨
      |q - x.toRat| = |q - n * step e| ∧ Even x.ordinal := by
    intro n hn
    rw [hx, abs_sub_mul_step, abs_sub_mul_step, heven]
    rcases hround.lt_or_eq hn with hlt | ⟨heq, hr⟩
    · exact .inl (mul_lt_mul_of_pos_right hlt hs)
    · exact .inr ⟨by rw [heq], hr⟩
  rcases y.multiple_or_lt e with ⟨n, hy⟩ | ⟨he, hy⟩
  · rw [hy]
    refine hnearest n ?_
    rintro rfl
    exact hne (toRat_injective (hy.trans hx.symm))
  · -- The first number with this step lies between the other magnitude and `q`.
    left
    have hq := hstart.resolve_left he
    have hle : |q - x.toRat| ≤ |q - 2 ^ 52 * step e| := by
      by_cases hr : r = 2 ^ 52
      · rw [hx, hr]
        norm_num
      · rcases hnearest (2 ^ 52) (Ne.symm hr) with hlt | ⟨heq, -⟩
        · exact_mod_cast hlt.le
        · exact_mod_cast heq.le
    rw [abs_of_nonneg (sub_nonneg.2 hq)] at hle
    refine hle.trans_lt ?_
    rw [abs_of_nonneg (by linarith)]
    linarith

end

/-! ### The end of the range -/

/-- The exponent is a variable for the same reason as in `perOne_eq`. -/
theorem ordinalNear_lt_iff (u : Nat) {den m : Nat} (hd : 0 < den) (hm : 2044 = m) :
    ordinalNear u den < 2047 * 0x10000000000000 ↔ u < (2 ^ 54 - 1) * (den * 2 ^ m) := by
  obtain ⟨r, e, hordinal, hr, hnormal, hhigh, hround⟩ := exists_place u hd
  rw [hordinal, pairOrdinal]
  rcases Nat.lt_trichotomy e (m + 1) with he | rfl | he
  · have hle : den * 2 ^ e ≤ den * 2 ^ m :=
      Nat.mul_le_mul_left den (Nat.pow_le_pow_right (by decide) (by omega))
    constructor <;> intro <;> omega
  · -- The last binade: its end is rounded to from half a step below it on.
    have hlt : r < 2 ^ 53 ↔ (u : ℚ) / (den * 2 ^ (m + 1) : Nat) < (2 ^ 53 : Nat) - 1 / 2 :=
      hround.lt_iff (by decide)
    have hpos : (0 : ℚ) < (den * 2 ^ (m + 1) : Nat) :=
      Nat.cast_pos.2 (Nat.mul_pos hd (Nat.two_pow_pos _))
    have hcast : ((2 ^ 53 : Nat) - 1 / 2 : ℚ) * (den * 2 ^ (m + 1) : Nat) =
        ((2 ^ 54 - 1) * (den * 2 ^ m) : Nat) := by
      rw [pow_succ]
      push_cast
      ring
    rw [div_lt_iff₀ hpos, hcast, Nat.cast_lt] at hlt
    rw [← hlt]
    constructor <;> intro <;> omega
  · have hle : den * 2 ^ (m + 2) ≤ den * 2 ^ e :=
      Nat.mul_le_mul_left den (Nat.pow_le_pow_right (by decide) (by omega))
    obtain ⟨hr₁, hu⟩ := hnormal.resolve_left (by omega)
    rw [pow_add, ← mul_assoc] at hle
    constructor <;> intro <;> omega

theorem overflow_mul_perOne {m : Nat} (hm : 2044 = m) :
    overflow * perOne = ((2 ^ 54 - 1) * 2 ^ m : Nat) := by
  obtain ⟨n, hn⟩ : ∃ n, 1074 = n := ⟨_, rfl⟩
  obtain ⟨k, hk⟩ : ∃ k, 970 = k := ⟨_, rfl⟩
  have hmk : m = k + n := by omega
  rw [overflow, perOne_eq hn, hk, hmk, pow_add]
  push_cast
  ring

section

variable {q z : ℚ} {r r' : Option Magnitude} {x y : Magnitude}

theorem Rounds.eq_none_iff (h : Rounds q r) : r = none ↔ overflow ≤ q := by
  obtain ⟨num, den, hd, rfl, rfl⟩ := h
  obtain ⟨m, hm⟩ : ∃ m, 2044 = m := ⟨_, rfl⟩
  have hd' : (0 : ℚ) < den := Nat.cast_pos.2 hd
  have hiff : overflow ≤ (num : ℚ) / den ↔ (2 ^ 54 - 1) * (den * 2 ^ m) ≤ num * perOne := by
    rw [le_div_iff₀ hd', ← mul_le_mul_iff_of_pos_right perOne_pos_rat, mul_right_comm,
      overflow_mul_perOne hm, Nat.mul_left_comm, Nat.mul_comm den]
    exact_mod_cast Iff.rfl
  rw [hiff, ← Nat.not_lt, ← ordinalNear_lt_iff _ hd hm, nearest?_eq]
  split
  · next hlt => simp [hlt]
  · next hlt => simp [hlt]

theorem Rounds.isNearest (h : Rounds q r) : IsNearest q r := by
  cases r with
  | none => exact h.eq_none_iff.1 rfl
  | some x =>
    refine ⟨not_le.1 fun hq => ?_, fun y hne => h.lt_or_eq hne⟩
    cases h.eq_none_iff.2 hq

theorem rounds_self (x : Magnitude) : Rounds x.toRat (some x) := by
  rw [← nearest?_units]
  exact rounds_toRat x

theorem exists_rounds (hq : 0 ≤ q) : ∃ r, Rounds q r := by
  refine ⟨_, q.num.toNat, q.den, q.den_pos, ?_, rfl⟩
  have hnum : ((q.num.toNat : Int) : ℚ) = q.num := by
    rw [Int.toNat_of_nonneg (Rat.num_nonneg.2 hq)]
  rw [← Int.cast_natCast, hnum, Rat.num_div_den]

theorem IsNearest.le (h : IsNearest q (some x)) (y : Magnitude) :
    |q - x.toRat| ≤ |q - y.toRat| := by
  by_cases hne : y = x
  · rw [hne]
  · rcases h.2 y hne with hlt | ⟨heq, -⟩
    · exact hlt.le
    · exact heq.le

theorem toRat_lt_iff : x.toRat < y.toRat ↔ x.ordinal < y.ordinal := by
  rw [← not_le, ← ordinal_le_iff, Nat.not_le]

/-- Of two magnitudes that are equally near one has an odd ordinal, or another is nearer. -/
theorem IsNearest.not_ordinal_lt (hx : IsNearest q (some x)) (hy : IsNearest q (some y)) :
    ¬ x.ordinal < y.ordinal := by
  intro hlt
  have hne : x ≠ y := fun h => by rw [h] at hlt; exact lt_irrefl _ hlt
  have hdist : |q - x.toRat| = |q - y.toRat| := le_antisymm (hx.le y) (hy.le x)
  have hxy := toRat_lt_iff.2 hlt
  have hmid : q - x.toRat = y.toRat - q := by
    rcases abs_eq_abs.1 hdist with h | h
    · exact absurd (by linarith) hxy.ne
    · linarith
  have hxeven : Even x.ordinal := by
    rcases hx.2 y hne.symm with h | h
    · exact absurd hdist h.ne
    · exact h.2
  have hyeven : Even y.ordinal := by
    rcases hy.2 x hne with h | h
    · exact absurd hdist.symm h.ne
    · exact h.2
  -- So they are not neighbours, and the next one after `x` is nearer.
  have hnext : x.ordinal + 1 < y.ordinal := by
    rw [Nat.even_iff] at hxeven hyeven
    omega
  let z : Magnitude := ⟨x.ordinal + 1, by have := y.lt; omega⟩
  have hxz : x.toRat < z.toRat := toRat_lt_iff.2 (Nat.lt_succ_self _)
  have hzy : z.toRat < y.toRat := toRat_lt_iff.2 hnext
  have hle := hx.le z
  rw [abs_of_pos (by linarith)] at hle
  rcases abs_cases (q - z.toRat) with ⟨h, -⟩ | ⟨h, -⟩ <;> linarith

theorem IsNearest.unique (h : IsNearest q r) (h' : IsNearest q r') : r = r' := by
  rcases r with - | x <;> rcases r' with - | y
  · rfl
  · exact absurd (show overflow ≤ q from h) (not_le.2 h'.1)
  · exact absurd (show overflow ≤ q from h') (not_le.2 h.1)
  · have hyx := Nat.not_lt.1 (h.not_ordinal_lt h')
    have hxy := Nat.not_lt.1 (h'.not_ordinal_lt h)
    rw [ext (Nat.le_antisymm hxy hyx)]

/-- Rounding gives the nearest magnitude. -/
theorem rounds_iff_isNearest (hq : 0 ≤ q) : Rounds q r ↔ IsNearest q r := by
  refine ⟨Rounds.isNearest, fun h => ?_⟩
  obtain ⟨r', hr'⟩ := exists_rounds hq
  rwa [h.unique hr'.isNearest]

/-! ### Order -/

theorem Rounds.mono (hx : Rounds q (some x)) (hy : Rounds z (some y)) (hqz : q ≤ z) :
    x.toRat ≤ y.toRat := by
  by_contra hlt
  rw [not_le] at hlt
  -- `q` is nearer to `x` and `z` to `y`, so that both are half way between them.
  have hq := add_le_of_abs_sub_le hlt (hx.isNearest.le y)
  have hz := le_add_of_abs_sub_le hlt (hy.isNearest.le x)
  obtain rfl : q = z := by linarith
  have := hx.unique hy
  cases this
  exact lt_irrefl _ hlt

/-- With signs as well. -/
theorem Rounds.signed_mono {s s' : Bool} (hx : Rounds q (some x)) (hy : Rounds z (some y))
    (hq : 0 ≤ q) (hz : 0 ≤ z) (h : (if s then -q else q) ≤ if s' then -z else z) :
    (if s then -x.toRat else x.toRat) ≤ if s' then -y.toRat else y.toRat := by
  have hx' := x.toRat_nonneg
  have hy' := y.toRat_nonneg
  rcases s with - | - <;> rcases s' with - | - <;>
    simp only [if_true, if_false, Bool.false_eq_true, neg_le_neg_iff] at h ⊢
  · exact hx.mono hy h
  · -- Both are zero.
    obtain rfl : q = 0 := by linarith
    obtain rfl : z = 0 := by linarith
    have hself := rounds_self zero
    rw [toRat_zero] at hself
    rw [Option.some.inj (hx.unique hself), Option.some.inj (hy.unique hself), toRat_zero, neg_zero]
  · linarith
  · exact hy.mono hx h

/-- What lies between two numbers that are rounded to `x` is rounded to `x`. -/
theorem Rounds.convex {a b : ℚ} (ha : Rounds a (some x)) (hb : Rounds b (some x)) (haz : a ≤ z)
    (hzb : z ≤ b) (hz : 0 ≤ z) : Rounds z (some x) := by
  obtain ⟨r, hr⟩ := exists_rounds hz
  rcases r with - | y
  · exact absurd (hzb.trans_lt hb.isNearest.1) (not_lt.2 (hr.eq_none_iff.1 rfl))
  · have h₁ := ha.mono hr haz
    have h₂ := hr.mono hb hzb
    rwa [toRat_injective (le_antisymm h₁ h₂)]

/-! ### Distances -/

theorem units_le (x : Magnitude) {m : Nat} (hm : 2044 = m) :
    x.units ≤ (2 ^ 53 - 1) * 2 ^ (m + 1) := by
  obtain ⟨r, e, hpair, hx⟩ := x.exists_pair
  have hlt := x.lt
  have hr := hpair.lt
  have he : e ≤ m + 1 := by
    rw [hx, pairOrdinal] at hlt
    have := hpair.normal
    omega
  rw [units_eq hpair hx]
  exact Nat.mul_le_mul (by omega) (Nat.pow_le_pow_right (by decide) he)

theorem toRat_lt_overflow (x : Magnitude) : x.toRat + x.toRat / 2 ^ 54 < overflow := by
  obtain ⟨m, hm⟩ : ∃ m, 2044 = m := ⟨_, rfl⟩
  have hle : (x.units : ℚ) ≤ ((2 ^ 53 - 1) * 2 ^ (m + 1) : Nat) := Nat.cast_le.2 (x.units_le hm)
  have hpow : (0 : ℚ) < 2 ^ m := by positivity
  refine lt_of_mul_lt_mul_right ?_ perOne_pos_rat.le
  rw [overflow_mul_perOne hm, add_mul, div_mul_eq_mul_div, ← units_eq_toRat]
  push_cast at hle ⊢
  rw [pow_succ] at hle
  linarith

/-- A whole number of the steps next to zero is rounded with an error of a part in 2^53 at most,
however small it is. -/
theorem Rounds.near {m : Nat} (h : Rounds q (some x)) (hq : q * perOne = m) :
    |x.toRat - q| ≤ q / 2 ^ 53 := by
  obtain ⟨r, e, hx, -, hround, hstart⟩ := h.exists_steps
  have hs := step_pos e
  have hdist : |x.toRat - q| = |q / step e - r| * step e := by
    rw [hx, abs_sub_comm, abs_sub_mul_step]
  have hnear := hround.near
  rcases hstart with rfl | hle
  · -- There is no rounding at all.
    have hm : q / step 0 = m := by rw [step, pow_zero, div_div_eq_mul_div, hq, div_one]
    rw [hm] at hnear hdist
    have hmr : m = r := by
      by_contra hne
      have := one_le_abs_sub_nat hne
      linarith
    rw [hdist, hmr, sub_self, abs_zero, zero_mul]
    have hpos : 0 ≤ q := by
      by_contra hneg
      have := mul_neg_of_neg_of_pos (not_le.1 hneg) perOne_pos_rat
      rw [hq] at this
      exact absurd this (not_lt.2 (Nat.cast_nonneg m))
    positivity
  · rw [hdist, le_div_iff₀ (by norm_num)]
    have := mul_le_mul_of_nonneg_right hnear hs.le
    linarith

/-- From `x` to another magnitude it is at least a part in 2^53 of `x`. -/
theorem le_abs_sub (hne : y ≠ x) : x.toRat / 2 ^ 53 ≤ |x.toRat - y.toRat| := by
  obtain ⟨r, e, hpair, hx⟩ := x.exists_pair
  have hs := step_pos e
  have hxr := toRat_eq_mul_step (units_eq hpair hx)
  have hr : (r : ℚ) ≤ 2 ^ 53 := by exact_mod_cast hpair.lt.le
  rcases y.multiple_or_lt e with ⟨n, hy⟩ | ⟨he, hy⟩
  · have hnr : n ≠ r := by
      rintro rfl
      exact hne (toRat_injective (hy.trans hxr.symm))
    have hone := one_le_abs_sub_nat hnr.symm
    rw [hxr, hy, ← sub_mul, abs_mul, abs_of_pos hs, mul_div_right_comm]
    refine mul_le_mul_of_nonneg_right (le_trans ?_ hone) hs.le
    rw [div_le_one (by norm_num)]
    exact hr
  · have hr₁ : (2 : ℚ) ^ 52 ≤ r := by exact_mod_cast hpair.normal.resolve_left he
    rw [hxr, abs_of_nonneg (by nlinarith)]
    have hmul : (r : ℚ) * step e / 2 ^ 53 ≤ (r - 2 ^ 52) * step e + step e / 2 := by
      have h₁ : ((r : ℚ) - 2 ^ 52) * step e ≥ (r - 2 ^ 52) * step e / 2 ^ 53 := by
        refine div_le_self (mul_nonneg (by linarith) hs.le) (by norm_num)
      have h₂ : (r : ℚ) * step e / 2 ^ 53 = (r - 2 ^ 52) * step e / 2 ^ 53 + step e / 2 := by
        ring
      linarith
    rw [sub_mul] at hmul
    linarith

/-- What is off from `x` by less than a part in 2^54 is rounded to `x`. -/
theorem rounds_of_near (hq : 0 ≤ q) (h : |q - x.toRat| < x.toRat / 2 ^ 54) : Rounds q (some x) := by
  rw [rounds_iff_isNearest hq]
  obtain ⟨-, habove⟩ := abs_lt.1 h
  have htop := x.toRat_lt_overflow
  refine ⟨by linarith, fun y hne => .inl ?_⟩
  have hgap := le_abs_sub hne
  have htri : |x.toRat - y.toRat| ≤ |q - x.toRat| + |q - y.toRat| := by
    have := abs_sub_le x.toRat q y.toRat
    rwa [abs_sub_comm x.toRat q] at this
  have hhalf : x.toRat / 2 ^ 53 = x.toRat / 2 ^ 54 + x.toRat / 2 ^ 54 := by ring
  linarith

end

/-! ### Beyond the range -/

/-- The exponents are variables, so that no power is evaluated. -/
theorem two_pow_le_ten_pow {a b : Nat} (h : a ≤ 3 * b) : (2 : ℚ) ^ a ≤ 10 ^ b := by
  have hpow : 2 ^ a ≤ 2 ^ (3 * b) := Nat.pow_le_pow_right (by decide) h
  have hbase : (2 ^ 3) ^ b ≤ 10 ^ b := Nat.pow_le_pow_left (by decide) b
  rw [← Nat.pow_mul] at hbase
  exact_mod_cast hpow.trans hbase

theorem overflow_le_pow {p : Int} (hp : 400 ≤ p) : overflow ≤ 10 ^ p := by
  obtain ⟨k, hk⟩ : ∃ k, 970 = k := ⟨_, rfl⟩
  lift p to Nat using by omega
  have hle : (2 : ℚ) ^ (54 + k) ≤ 10 ^ p := two_pow_le_ten_pow (by omega)
  rw [zpow_natCast, overflow, hk]
  refine le_trans ?_ hle
  rw [pow_add]
  gcongr
  norm_num

theorem pow_lt_half_unit {p : Int} (hp : p ≤ -400) : 2 * ((10 : ℚ) ^ p * perOne) < 1 := by
  obtain ⟨n, hn⟩ : ∃ n, 1074 = n := ⟨_, rfl⟩
  obtain ⟨k, rfl⟩ : ∃ k : Nat, p = -k := ⟨p.natAbs, by omega⟩
  have hle : (2 : ℚ) ^ (n + 2) ≤ 10 ^ k := two_pow_le_ten_pow (by omega)
  rw [perOne_eq hn, zpow_neg, zpow_natCast, inv_mul_eq_div, ← mul_div_assoc,
    div_lt_one (by positivity)]
  rw [pow_add] at hle
  have hpos : (0 : ℚ) < 2 ^ n := by positivity
  push_cast
  linarith

/-- Less than half a unit is rounded to zero. -/
theorem rounds_zero {q : ℚ} (hq : 0 ≤ q) (h : 2 * (q * perOne) < 1) : Rounds q (some zero) := by
  obtain ⟨r, hr⟩ := exists_rounds hq
  obtain ⟨one, hone⟩ := exists_toRat_nat (n := 1) (by norm_num)
  have hP : (1 : ℚ) ≤ perOne := by exact_mod_cast perOne_pos
  obtain ⟨x, rfl, -⟩ := hr.le (y := one) (by rw [hone, Nat.cast_one]; nlinarith)
  -- Zero is no further from `q` than `q`.
  have hx : x.toRat ≤ 2 * q := by
    have hle := hr.isNearest.le zero
    rw [toRat_zero, sub_zero, abs_of_nonneg hq] at hle
    linarith [(abs_le.1 hle).1]
  have hunits : x.units = 0 := by
    have hlt : (x.units : ℚ) < 1 := by
      rw [units_eq_toRat]
      nlinarith
    exact Nat.lt_one_iff.1 (by exact_mod_cast hlt)
  have hzero : x.toRat = zero.toRat := by rw [toRat_zero, toRat, hunits, Nat.cast_zero, zero_div]
  rwa [← toRat_injective hzero]

theorem rounds_zero_of_le_pow {q : ℚ} (hq : 0 ≤ q) {p : Int} (hp : p ≤ -400) (h : q ≤ 10 ^ p) :
    Rounds q (some zero) := by
  have hmul := mul_le_mul_of_nonneg_right h perOne_pos_rat.le
  have hlt := pow_lt_half_unit hp
  exact rounds_zero hq (by linarith)

end Magnitude

end ConfigGate
