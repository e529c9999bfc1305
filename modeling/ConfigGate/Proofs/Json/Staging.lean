import Mathlib
import ConfigGate.Proofs.Binary64.Rounding
import ConfigGate.Proofs.Json.Number

/-!
# Numbers read in stages

A numeral that is no integer is read through a significand of 64 bits, a rounded power of ten and a
rounded product or quotient. The result need not be the nearest number, but it lies on the same side
of a small natural number as the numeral does (`ofFractional_le`, `le_ofFractional`). Each stage
keeps the order, and where the bound could be passed the stages are exact.
-/

namespace ConfigGate.Json.Number

open Magnitude (Rounds)

/-! ### The significand -/

/-- `t * 10 ^ x` has the leading digits of `q`. Both agree in the digits of `s`, which are all of
`q` unless they are many. -/
structure Leads (t : Nat) (x : Int) (q : ℚ) : Prop where
  digits : ∃ (s : Nat) (z : Int) (read rest : ℚ), 0 ≤ read ∧ read ≤ rest ∧ rest < 1 ∧
    t * 10 ^ x = (s + read) * 10 ^ z ∧ q = (s + rest) * 10 ^ z ∧ (rest = 0 ∨ 10 ^ 18 ≤ s)

theorem gather_lt {s : Nat} (ds : List Digit) (h : s < 0x10000000000000000) :
    (gather s ds).1 < 0x10000000000000000 := by
  induction ds generalizing s with
  | nil => exact h
  | cons d ds ih =>
    rw [gather]
    split
    · exact ih ‹_›
    · exact h

/-- Digits behind a point, as a part of one. -/
theorem value_div_lt_one (ds : List Digit) : (Digits.value ds : ℚ) / 10 ^ ds.length < 1 := by
  rw [div_lt_one (by positivity)]
  exact_mod_cast Digits.value_lt ds

theorem significand_lt (n : Numeral) : (significand n).1 < 0x10000000000000000 :=
  gather_lt _ (gather_lt _ (by decide))

/-- Where the digits before the point are gathered, the rest of the fraction is left out. -/
theorem leads_of_whole {n : Numeral} {taken left : List Digit} (hf : n.fraction = taken ++ left)
    (hmany : ∀ d ∈ left.head?, 0x10000000000000000 ≤
      10 * (Digits.value n.whole * 10 ^ taken.length + Digits.value taken) + d.val) :
    Leads (Digits.value n.whole * 10 ^ taken.length + Digits.value taken) (-(taken.length : Int))
      (n.coefficient * 10 ^ (-(n.fraction.length : Int))) := by
  generalize ht : Digits.value n.whole * 10 ^ taken.length + Digits.value taken = t at hmany ⊢
  refine ⟨t, -(taken.length : Int), 0, Digits.value left / 10 ^ left.length, le_rfl, by positivity,
    value_div_lt_one left, by simp, ?_, ?_⟩
  · have hc : n.coefficient = t * 10 ^ left.length + Digits.value left := by
      rw [Numeral.coefficient, hf, ← List.append_assoc, Digits.value_append, Digits.value_append, ht]
    rw [hc, hf, List.length_append, zpow_neg, zpow_neg, zpow_natCast, zpow_natCast, pow_add]
    push_cast
    field_simp
  · cases left with
    | nil => exact .inl (by simp)
    | cons d left =>
      right
      have := hmany d rfl
      have := d.isLt
      omega

theorem le_value_div (d : Digit) (ds : List Digit) :
    (d.val : ℚ) / 10 ≤ Digits.value (d :: ds) / 10 ^ (ds.length + 1) := by
  rw [div_le_div_iff₀ (by norm_num) (by positivity), Digits.value_cons, pow_succ]
  push_cast
  have : (0 : ℚ) ≤ Digits.value ds := Nat.cast_nonneg _
  nlinarith

theorem value_div_lt (d : Digit) (ds : List Digit) :
    (Digits.value (d :: ds) : ℚ) / 10 ^ (ds.length + 1) < (d.val + 1) / 10 := by
  rw [div_lt_div_iff₀ (by positivity) (by norm_num), Digits.value_cons, pow_succ]
  push_cast
  have : (Digits.value ds : ℚ) < 10 ^ ds.length := by exact_mod_cast Digits.value_lt ds
  linarith

/-- Where digits before the point are left out, those of the fraction that still fit are less. -/
theorem leads_of_left {n : Numeral} {taken left more : List Digit} {d : Digit} {s : Nat}
    (hw : n.whole = taken ++ d :: left) (hs : s = Digits.value taken)
    (hd : 0x10000000000000000 ≤ 10 * s + d.val) {rest : List Digit} (hf : n.fraction = more ++ rest)
    (hlt : s * 10 ^ more.length + Digits.value more < 0x10000000000000000) :
    Leads (s * 10 ^ more.length + Digits.value more)
      ((left.length : Int) + 1 - more.length)
      (n.coefficient * 10 ^ (-(n.fraction.length : Int))) := by
  have hc : n.coefficient = s * 10 ^ (left.length + 1 + n.fraction.length) +
      Digits.value (d :: (left ++ n.fraction)) := by
    rw [Numeral.coefficient, hw, List.append_assoc, Digits.value_append, hs]
    simp [Nat.add_right_comm]
  generalize hv : Digits.value (d :: (left ++ n.fraction)) = v at hc
  refine ⟨s, left.length + 1, Digits.value more / 10 ^ more.length,
    v / 10 ^ (left.length + 1 + n.fraction.length), by positivity, ?_, ?_, ?_, ?_, .inr ?_⟩
  · cases more with
    | nil =>
      rw [Digits.value_nil, Nat.cast_zero, zero_div]
      positivity
    | cons d' more =>
      have hfits : 10 * s + d'.val < 0x10000000000000000 := by
        have hone : 1 ≤ 10 ^ more.length := Nat.one_le_pow _ _ (by decide)
        have := Nat.le_mul_of_pos_right (10 * s + d'.val) hone
        rw [Digits.value_cons, List.length_cons, pow_succ] at hlt
        ring_nf at hlt this
        omega
      have hless : (d'.val : ℚ) + 1 ≤ d.val := by
        have : d'.val + 1 ≤ d.val := by omega
        exact_mod_cast this
      have hlow := value_div_lt d' more
      have hhigh := le_value_div d (left ++ n.fraction)
      rw [hv, List.length_append, Nat.add_right_comm] at hhigh
      rw [List.length_cons]
      linarith
  · have := value_div_lt_one (d :: (left ++ n.fraction))
    rw [hv] at this
    convert this using 2
    simp [Nat.add_right_comm]
  · rw [zpow_sub₀ (by norm_num), zpow_natCast]
    push_cast
    field_simp
  · rw [hc, zpow_neg, zpow_natCast, ← Nat.cast_succ, zpow_natCast, pow_add]
    push_cast
    field_simp
    ring
  · have := d.isLt
    omega

theorem leads_significand (n : Numeral) :
    Leads (significand n).1 (significand n).2
      (n.coefficient * 10 ^ (-(n.fraction.length : Int))) := by
  obtain ⟨taken, left, hw, hg, hd⟩ := gather_spec 0 n.whole
  rw [Nat.zero_mul, Nat.zero_add] at hg hd
  obtain ⟨more, rest, hf, hg', hd'⟩ := gather_spec (Digits.value taken) n.fraction
  have hsig : significand n = (Digits.value taken * 10 ^ more.length + Digits.value more,
      (n.whole.length : Int) - taken.length - more.length) := by
    simp only [significand, hg, hg']
  have hlt : Digits.value taken * 10 ^ more.length + Digits.value more < 0x10000000000000000 := by
    have := significand_lt n
    rwa [hsig] at this
  rw [hsig]
  dsimp only
  cases left with
  | nil =>
    rw [List.append_nil] at hw
    have := leads_of_whole hf (hw ▸ hd')
    convert this using 1
    · rw [hw]
    · rw [hw]
      ring
  | cons d left =>
    have := leads_of_left hw rfl (hd d rfl) hf hlt
    convert this using 1
    rw [hw, List.length_append, List.length_cons]
    push_cast
    ring

namespace Leads

variable {t : Nat} {x : Int} {q : ℚ}

theorem shift (h : Leads t x q) (w : Int) : Leads t (x + w) (q * 10 ^ w) := by
  obtain ⟨s, z, read, rest, h0, hle, hlt, ht, hq, hmany⟩ := h.digits
  refine ⟨s, z + w, read, rest, h0, hle, hlt, ?_, ?_, hmany⟩
  · rw [zpow_add₀ (by norm_num), zpow_add₀ (by norm_num), ← mul_assoc, ht, mul_assoc]
  · rw [zpow_add₀ (by norm_num), ← mul_assoc, hq]

theorem le (h : Leads t x q) : t * 10 ^ x ≤ q := by
  obtain ⟨s, z, read, rest, -, hle, -, ht, hq, -⟩ := h.digits
  rw [ht, hq]
  gcongr

/-- A natural number that is not above `q` is not above its leading digits: these are many, or the
number is a multiple of the place of the last of them. -/
theorem ge (h : Leads t x q) {b : Nat} (hb : b ≤ 10 ^ 18) (hq : b ≤ q) :
    (b : ℚ) ≤ t * 10 ^ x := by
  obtain ⟨s, z, read, rest, h0, -, hlt, ht, rfl, hmany⟩ := h.digits
  have hread : (s : ℚ) * 10 ^ z ≤ t * 10 ^ x := by
    rw [ht]
    gcongr
    linarith
  refine le_trans ?_ hread
  rcases hmany with rfl | hmany
  · simpa using hq
  · rcases le_or_gt 0 z with hz | hz
    · have hone : (1 : ℚ) ≤ 10 ^ z := one_le_zpow₀ (by norm_num) hz
      have hbs : (b : ℚ) ≤ s := by exact_mod_cast hb.trans hmany
      nlinarith
    · obtain ⟨k, rfl⟩ : ∃ k : Nat, z = -k := ⟨z.natAbs, by omega⟩
      have hpow : (0 : ℚ) < 10 ^ k := by positivity
      rw [zpow_neg, zpow_natCast, ← div_eq_mul_inv, le_div_iff₀ hpow] at hq ⊢
      have : b * 10 ^ k < s + 1 := by
        have : (b : ℚ) * 10 ^ k < s + 1 := by linarith
        exact_mod_cast this
      exact_mod_cast Nat.le_of_lt_succ this

end Leads

/-! ### Scaling -/

/-- Natural numbers whose place the stages keep. -/
structure IsBound (b : Nat) : Prop where
  two_le : 2 ≤ b
  le : b ≤ 2000

theorem exists_pow {k : Nat} (hk : k ≤ maxPower) :
    ∃ p, Magnitude.ofNat? (Nat.pow 10 k) = some p ∧ Rounds (10 ^ k) (some p) := by
  have hr := Magnitude.rounds_ofNat (Nat.pow 10 k)
  obtain ⟨top, htop⟩ := Magnitude.exists_toRat (a := 2 ^ 53 - 1) (b := 971) (by decide) le_rfl
  have hle : ((Nat.pow 10 k : Nat) : ℚ) ≤ top.toRat := by
    have hmax : 10 ^ maxPower ≤ (2 ^ 53 - 1) * 2 ^ 971 := by decide +kernel
    rw [htop]
    exact_mod_cast (Nat.pow_le_pow_right (by decide) hk).trans hmax
  obtain ⟨p, hp, -⟩ := hr.le hle
  refine ⟨p, hp, ?_⟩
  rw [hp] at hr
  simpa using hr

/-- Powers of ten up to the twenty-second, and their products with a bound up to the eighteenth, are
not rounded. -/
theorem exists_toRat_pow {k : Nat} (hk : k ≤ 22) : ∃ y : Magnitude, y.toRat = 10 ^ k := by
  obtain ⟨y, hy⟩ := Magnitude.exists_toRat (a := 5 ^ k) (b := k)
    (Nat.lt_of_le_of_lt (Nat.pow_le_pow_right (by decide) hk) (by decide)) (by omega)
  refine ⟨y, hy.trans ?_⟩
  rw [Nat.cast_pow, ← mul_pow]
  norm_num

namespace IsBound

variable {b : Nat}

theorem exists_toRat_mul (hb : IsBound b) {k : Nat} (hk : k ≤ 18) :
    ∃ y : Magnitude, y.toRat = b * 10 ^ k := by
  have hlt : b * 5 ^ k < 2 ^ 53 :=
    Nat.lt_of_le_of_lt (Nat.mul_le_mul hb.le (Nat.pow_le_pow_right (by decide) hk)) (by decide)
  obtain ⟨y, hy⟩ := Magnitude.exists_toRat (b := k) hlt (by omega)
  refine ⟨y, hy.trans ?_⟩
  rw [Nat.cast_mul, Nat.cast_pow, mul_assoc, ← mul_pow]
  norm_num

theorem exists_toRat (hb : IsBound b) : ∃ y : Magnitude, y.toRat = b := by
  simpa using hb.exists_toRat_mul (Nat.zero_le 18)

end IsBound

theorem rounds_pow_eq {k : Nat} (hk : k ≤ 22) {p : Magnitude} (h : Rounds (10 ^ k) (some p)) :
    p.toRat = 10 ^ k := by
  obtain ⟨y, hy⟩ := exists_toRat_pow hk
  rw [← hy] at h ⊢
  rw [Option.some.inj h.eq]

/-- A large power of ten stays large. -/
theorem le_of_rounds_pow {j k : Nat} (hj : j ≤ 19) (hjk : j ≤ k) {p : Magnitude}
    (h : Rounds (10 ^ k) (some p)) : 10 ^ j ≤ p.toRat := by
  obtain ⟨y, hy⟩ := exists_toRat_pow (hj.trans (by decide))
  rw [← hy]
  refine h.ge ?_
  rw [hy]
  exact pow_le_pow_right₀ (by norm_num) hjk

section

variable {f g : Magnitude} {x : Int}

theorem scale?_negative {k : Nat} (hpos : 0 < k) (hk : k ≤ maxPower) :
    ∃ p, Rounds (10 ^ k) (some p) ∧ ∀ f : Magnitude, scale? f (-k) = f.div? p := by
  obtain ⟨p, hp, hr⟩ := exists_pow hk
  refine ⟨p, hr, fun f => ?_⟩
  rw [scale?, if_neg (by simp only [maxPower] at *; omega), if_pos (by omega), Int.natAbs_neg,
    Int.natAbs_natCast, hp, Option.bind_eq_bind, Option.bind_some]

theorem scale?_natural {k : Nat} (hk : k ≤ maxPower) :
    ∃ p, Rounds (10 ^ k) (some p) ∧ ∀ f : Magnitude, scale? f k = f.mul? p := by
  obtain ⟨p, hp, hr⟩ := exists_pow hk
  refine ⟨p, hr, fun f => ?_⟩
  rw [scale?, if_neg (by simp only [maxPower] at *; omega), if_neg (by omega),
    if_pos (by exact_mod_cast hk), Int.natAbs_natCast, hp, Option.bind_eq_bind, Option.bind_some]

/-- The step for exponents that are reached by dividing more than once. -/
theorem scale?_far (hx : x < -maxPower) (hf : f.isZero = false) :
    ∃ p, Rounds (10 ^ maxPower) (some p) ∧
      scale? f x = (f.div? p).bind (scale? · (x + maxPower)) := by
  obtain ⟨p, hp, hr⟩ := exists_pow le_rfl
  refine ⟨p, hr, ?_⟩
  rw [scale?, if_pos hx, if_neg (by simp [hf]), hp, Option.bind_eq_bind, Option.bind_some]

end

theorem div?_le {f p y : Magnitude} {j : Nat} (hp : 10 ^ j ≤ p.toRat)
    (h : f.toRat ≤ y.toRat * 10 ^ j) : ∃ g, f.div? p = some g ∧ g.toRat ≤ y.toRat := by
  have hpos : 0 < p.toRat := lt_of_lt_of_le (by positivity) hp
  refine (Magnitude.rounds_div f hpos).le ((div_le_iff₀ hpos).2 (h.trans ?_))
  exact mul_le_mul_of_nonneg_left hp y.toRat_nonneg

/-- Scaling by a negative exponent divides by the power of ten at least, as far as powers of ten are
not rounded. -/
theorem scale?_le {f y : Magnitude} {x : Int} {j : Nat} (hx : x < 0) (hj : j ≤ 19)
    (hjx : j ≤ x.natAbs) (h : f.toRat ≤ y.toRat * 10 ^ j) :
    ∃ g, scale? f x = some g ∧ g.toRat ≤ y.toRat := by
  by_cases hfar : x < -maxPower
  · cases hf : f.isZero with
    | true =>
      refine ⟨f, by rw [scale?, if_pos hfar, if_pos hf], ?_⟩
      rw [Magnitude.isZero_iff.1 hf]
      exact y.toRat_nonneg
    | false =>
      obtain ⟨p, hr, hs⟩ := scale?_far hfar hf
      obtain ⟨g, hg, hle⟩ := div?_le (le_of_rounds_pow hj (hj.trans (by decide)) hr) h
      rw [hs, hg, Option.bind_some]
      exact scale?_le (j := 0) (by simp only [maxPower] at *; omega) (Nat.zero_le 19)
        (Nat.zero_le _) (by simpa using hle)
  · obtain ⟨k, rfl⟩ : ∃ k : Nat, x = -k := ⟨x.natAbs, by omega⟩
    obtain ⟨p, hr, hs⟩ := scale?_negative (k := k) (by omega) (by omega)
    rw [hs]
    exact div?_le (le_of_rounds_pow hj (by omega) hr) h
termination_by x.natAbs
decreasing_by exact natAbs_add_lt x hfar

/-! ### Bounds -/

section

variable {b s k : Nat} {x : Int}

/-- A significand divided by a power of ten. Up to the eighteenth the bound is kept exactly, and
beyond that the quotient is less than two. -/
theorem staged_le_of_neg (hb : IsBound b) (hs : s < 0x10000000000000000) (hk : 0 < k)
    (h : (s : ℚ) * 10 ^ (-(k : Int)) ≤ b) :
    ∃ g, (Magnitude.ofNat? s).bind (scale? · (-(k : Int))) = some g ∧ g.toRat ≤ b := by
  obtain ⟨y, hy⟩ := hb.exists_toRat
  have hround := Magnitude.rounds_ofNat s
  rw [← hy]
  rcases Nat.lt_or_ge 18 k with hfar | hnear
  · obtain ⟨top, htop⟩ := Magnitude.exists_toRat (a := 1) (b := 64) (by decide) (by decide)
    obtain ⟨f, hf, hle⟩ := hround.le (y := top) (by rw [htop]; exact_mod_cast hs.le)
    rw [hf, Option.bind_some]
    refine scale?_le (by omega) le_rfl (by omega) (hle.trans ?_)
    have htwo : (2 : ℚ) ≤ b := by exact_mod_cast hb.two_le
    rw [htop, hy]
    norm_num
    linarith
  · obtain ⟨z, hz⟩ := hb.exists_toRat_mul hnear
    rw [zpow_neg, zpow_natCast, ← div_eq_mul_inv, div_le_iff₀ (by positivity), ← hz] at h
    obtain ⟨f, hf, hle⟩ := hround.le h
    rw [hf, Option.bind_some]
    refine scale?_le (by omega) (hnear.trans (by decide)) (by omega) ?_
    rwa [hy, ← hz]

/-- Zero stays zero, and any other significand has too small a power of ten to be rounded. -/
theorem staged_le_of_nonneg (hb : IsBound b) (h : s * 10 ^ k ≤ b) :
    ∃ g, (Magnitude.ofNat? s).bind (scale? · (k : Int)) = some g ∧ g.toRat ≤ b := by
  obtain ⟨y, hy⟩ := hb.exists_toRat
  have hround := Magnitude.rounds_ofNat s
  have hle : s ≤ s * 10 ^ k := Nat.le_mul_of_pos_right s (by positivity)
  have hmax := hb.le
  obtain ⟨f, hf⟩ := Magnitude.exists_toRat_nat (n := s) (by omega)
  rw [← hf] at hround
  rw [← hy, hround.eq, Option.bind_some]
  rcases Nat.eq_zero_or_pos s with rfl | hpos
  · have hzero : f.toRat = 0 := by rw [hf, Nat.cast_zero]
    by_cases hk : k ≤ maxPower
    · obtain ⟨p, -, hscale⟩ := scale?_natural hk
      rw [hscale]
      refine (Magnitude.rounds_mul f p).le ?_
      rw [hzero, zero_mul]
      exact y.toRat_nonneg
    · refine ⟨f, ?_, hzero ▸ y.toRat_nonneg⟩
      rw [scale?, if_neg (by omega), if_neg (by omega), if_neg (by omega),
        if_pos (Magnitude.isZero_iff.2 hzero)]
  · have hk : k ≤ 3 := by
      by_contra hlt
      have : 10 ^ 4 ≤ 10 ^ k := Nat.pow_le_pow_right (by decide) (by omega)
      have := Nat.le_mul_of_pos_left (10 ^ k) hpos
      omega
    obtain ⟨p, hr, hscale⟩ := scale?_natural (hk.trans (by decide))
    rw [hscale]
    refine (Magnitude.rounds_mul f p).le ?_
    rw [hf, rounds_pow_eq (hk.trans (by decide)) hr, hy]
    exact_mod_cast h

/-- What is not above a bound is read as something not above it. -/
theorem staged_le (hb : IsBound b) (hs : s < 0x10000000000000000) (h : (s : ℚ) * 10 ^ x ≤ b) :
    ∃ g, (Magnitude.ofNat? s).bind (scale? · x) = some g ∧ g.toRat ≤ b := by
  rcases lt_or_ge x 0 with hx | hx
  · obtain ⟨k, rfl⟩ : ∃ k : Nat, x = -k := ⟨x.natAbs, by omega⟩
    exact staged_le_of_neg hb hs (by omega) h
  · lift x to Nat using hx
    rw [zpow_natCast] at h
    exact staged_le_of_nonneg hb (by exact_mod_cast h)

theorem le_staged_of_neg (hb : IsBound b) (hs : s < 0x10000000000000000) (hk : 0 < k)
    (h : b * 10 ^ k ≤ s) {g : Magnitude}
    (hg : (Magnitude.ofNat? s).bind (scale? · (-(k : Int))) = some g) : b ≤ g.toRat := by
  obtain ⟨f, hf, hg⟩ := Option.bind_eq_some_iff.1 hg
  have hround := Magnitude.rounds_ofNat s
  rw [hf] at hround
  have hnear : k ≤ 18 := by
    by_contra hlt
    have hpow : 10 ^ 19 ≤ 10 ^ k := Nat.pow_le_pow_right (by decide) (by omega)
    have := Nat.mul_le_mul hb.two_le hpow
    omega
  obtain ⟨y, hy⟩ := hb.exists_toRat
  obtain ⟨z, hz⟩ := hb.exists_toRat_mul hnear
  obtain ⟨p, hr, hscale⟩ := scale?_negative hk (hnear.trans (by decide))
  have hp := rounds_pow_eq (hnear.trans (by decide)) hr
  rw [hscale] at hg
  have hdiv := Magnitude.rounds_div f (y := p) (by rw [hp]; positivity)
  rw [hg] at hdiv
  rw [← hy]
  refine hdiv.ge ?_
  rw [hp, le_div_iff₀ (by positivity), hy, ← hz]
  exact hround.ge (hz ▸ by exact_mod_cast h)

/-- The lesser of significand and bound is not rounded, nor is the lesser of the power and the
nineteenth, and their product reaches the bound. -/
theorem le_staged_of_nonneg (hb : IsBound b) (h : b ≤ s * 10 ^ k) {g : Magnitude}
    (hg : (Magnitude.ofNat? s).bind (scale? · (k : Int)) = some g) : b ≤ g.toRat := by
  obtain ⟨f, hf, hg⟩ := Option.bind_eq_some_iff.1 hg
  have hround := Magnitude.rounds_ofNat s
  rw [hf] at hround
  have hmax := hb.le
  have htwo := hb.two_le
  have hpos : 0 < s := by
    rcases Nat.eq_zero_or_pos s with rfl | hpos
    · omega
    · exact hpos
  obtain ⟨y, hy⟩ := hb.exists_toRat
  obtain ⟨m, hm⟩ := Magnitude.exists_toRat_nat (n := min s b) (by omega)
  have hmf : ((min s b : Nat) : ℚ) ≤ f.toRat := by
    rw [← hm]
    refine hround.ge ?_
    rw [hm]
    exact_mod_cast Nat.min_le_left s b
  by_cases hk : k ≤ maxPower
  · obtain ⟨p, hr, hscale⟩ := scale?_natural hk
    rw [hscale] at hg
    have hmul := Magnitude.rounds_mul f p
    rw [hg] at hmul
    have hp : (10 : ℚ) ^ min k 19 ≤ p.toRat :=
      le_of_rounds_pow (Nat.min_le_right k 19) (Nat.min_le_left k 19) hr
    have hreach : b ≤ min s b * 10 ^ min k 19 := by
      rcases Nat.le_total k 19 with hk | hk
      · rw [Nat.min_eq_left hk]
        rcases Nat.le_total s b with hsb | hsb
        · rwa [Nat.min_eq_left hsb]
        · rw [Nat.min_eq_right hsb]
          exact Nat.le_mul_of_pos_right b (by positivity)
      · rw [Nat.min_eq_right hk]
        omega
    rw [← hy]
    refine hmul.ge ?_
    calc y.toRat = b := hy
      _ ≤ (min s b : Nat) * 10 ^ min k 19 := by exact_mod_cast hreach
      _ ≤ f.toRat * p.toRat := mul_le_mul hmf hp (by positivity) f.toRat_nonneg
  · rw [scale?, if_neg (by omega), if_neg (by omega), if_neg (by omega), if_neg] at hg
    · cases hg
    · rw [Magnitude.isZero_iff]
      intro hzero
      rw [hzero] at hmf
      have : min s b ≤ 0 := by exact_mod_cast hmf
      omega

/-- What is not below a bound is read as something not below it. -/
theorem le_staged (hb : IsBound b) (hs : s < 0x10000000000000000) (h : (b : ℚ) ≤ s * 10 ^ x)
    {g : Magnitude} (hg : (Magnitude.ofNat? s).bind (scale? · x) = some g) : b ≤ g.toRat := by
  rcases lt_or_ge x 0 with hx | hx
  · obtain ⟨k, rfl⟩ : ∃ k : Nat, x = -k := ⟨x.natAbs, by omega⟩
    rw [zpow_neg, zpow_natCast, ← div_eq_mul_inv, le_div_iff₀ (by positivity)] at h
    exact le_staged_of_neg hb hs (by omega) (by exact_mod_cast h) hg
  · lift x to Nat using hx
    rw [zpow_natCast] at h
    exact le_staged_of_nonneg hb (by exact_mod_cast h) hg

theorem scaled_eq_ok_iff {negative : Bool} {y : Number} : scaled negative s x = .ok y ↔
    ∃ f, (Magnitude.ofNat? s).bind (scale? · x) = some f ∧ y = .float negative f := by
  rw [scaled]
  generalize (Magnitude.ofNat? s).bind (scale? · x) = r
  cases r with
  | none => simp
  | some f => simp [eq_comm]

theorem scaled_le (hb : IsBound b) (hs : s < 0x10000000000000000) (h : (s : ℚ) * 10 ^ x ≤ b)
    (negative : Bool) : ∃ g, scaled negative s x = .ok (.float negative g) ∧ g.toRat ≤ b := by
  obtain ⟨g, hg, hle⟩ := staged_le hb hs h
  exact ⟨g, scaled_eq_ok_iff.2 ⟨g, hg, rfl⟩, hle⟩

theorem le_scaled (hb : IsBound b) (hs : s < 0x10000000000000000) (h : (b : ℚ) ≤ s * 10 ^ x)
    {negative sign : Bool} {g : Magnitude} (hg : scaled negative s x = .ok (.float sign g)) :
    b ≤ g.toRat := by
  obtain ⟨f, hf, hy⟩ := scaled_eq_ok_iff.1 hg
  obtain ⟨-, rfl⟩ := Number.float.inj hy
  exact le_staged hb hs h hf

end

/-! ### Numerals -/

section

variable {n : Numeral} {b : Nat}

theorem leads_toRat (n : Numeral) :
    Leads (significand n).1 ((significand n).2 + n.writtenPower) n.toRat := by
  have h := (leads_significand n).shift n.writtenPower
  rwa [mul_assoc, ← zpow_add₀ (by norm_num), neg_add_eq_sub] at h

/-- An exponent that does not pass 31 bits is taken as it is written. -/
theorem ofFractional_eq (he : ∀ e ∈ n.exponent, exponentExcess? 0 e.digits = none) :
    ofFractional n =
      scaled n.negative (significand n).1 ((significand n).2 + n.writtenPower) := by
  cases hn : n.exponent with
  | none => simp only [ofFractional, Numeral.writtenPower, hn, Int.add_zero]
  | some e =>
    have := he e hn
    simp only [ofFractional, Numeral.writtenPower, hn, this]

/-- A numeral that is not above a bound is read as a number that is not. -/
theorem ofFractional_le (hb : IsBound b) (h : n.toRat ≤ b)
    (he : ∀ e ∈ n.exponent, e.negative = false → exponentExcess? 0 e.digits = none) :
    ∃ g, ofFractional n = .ok (.float n.negative g) ∧ g.toRat ≤ b := by
  by_cases hall : ∀ e ∈ n.exponent, exponentExcess? 0 e.digits = none
  · have hread := (leads_toRat n).le.trans h
    have hlt := significand_lt n
    rw [ofFractional_eq hall]
    exact scaled_le hb hlt hread n.negative
  · push Not at hall
    obtain ⟨e, hn, hex⟩ := hall
    obtain ⟨unread, hunread⟩ := Option.ne_none_iff_exists'.1 hex
    have hneg : e.negative = true := by
      by_contra hpos
      exact hex (he e hn (by simpa using hpos))
    refine ⟨.zero, ?_, ?_⟩
    · simp only [Option.mem_def] at hn
      simp [ofFractional, hn, hunread, hneg]
    · rw [Magnitude.toRat_zero]
      exact Nat.cast_nonneg b

/-- A numeral that is not below a bound is read as a number that is not. -/
theorem le_ofFractional (hb : IsBound b) (h : b ≤ n.toRat)
    (he : ∀ e ∈ n.exponent, exponentExcess? 0 e.digits = none) {negative : Bool} {g : Magnitude}
    (hg : ofFractional n = .ok (.float negative g)) : b ≤ g.toRat := by
  have hread := (leads_toRat n).ge (hb.le.trans (by norm_num)) h
  have hlt := significand_lt n
  rw [ofFractional_eq he] at hg
  exact le_scaled hb hlt hread hg

end

end ConfigGate.Json.Number
