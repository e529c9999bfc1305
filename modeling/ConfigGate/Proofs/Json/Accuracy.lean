import Mathlib
import ConfigGate.Proofs.Binary64.Error
import ConfigGate.Proofs.Json.Staging

/-!
# The accuracy of numbers

The number that a numeral is read as lies on the same side of a small natural number as the numeral
does, and strictly so where the numeral keeps a distance of a ten-thousandth (`Sides`). For numbers
read in stages the weak statements are those of the stages, which keep the order. The strict ones
come from the error of the stages: three roundings, and the digits that 64 bits do not hold. An
exponent that passes 31 bits is not looked at, but then the numeral is less than one, as its digits
are too few to make up for it.
-/

namespace ConfigGate.Json

namespace Number

open Magnitude (Rounds Within)

/-! ### The error of the stages -/

namespace Leads

variable {t : Nat} {x : Int} {q : ℚ}

theorem near (h : Leads t x q) : q * (1 - 1 / 10 ^ 18) ≤ t * 10 ^ x := by
  obtain ⟨s, z, read, rest, h0, hle, hlt, ht, rfl, hmany⟩ := h.digits
  have hpow : (0 : ℚ) < 10 ^ z := by positivity
  rw [ht, mul_right_comm]
  refine mul_le_mul_of_nonneg_right ?_ hpow.le
  rcases hmany with rfl | hmany
  · obtain rfl : read = 0 := le_antisymm hle h0
    have hs : (0 : ℚ) ≤ s := Nat.cast_nonneg s
    linarith
  · have hs : (10 : ℚ) ^ 18 ≤ s := by exact_mod_cast hmany
    linarith

theorem eq_zero (h : Leads 0 x q) : q = 0 := by
  obtain ⟨s, z, read, rest, h0, hle, -, ht, rfl, hmany⟩ := h.digits
  have hs : (0 : ℚ) ≤ s := Nat.cast_nonneg s
  have hzero : (s : ℚ) + read = 0 := by
    rw [Nat.cast_zero, zero_mul, eq_comm, mul_eq_zero] at ht
    exact ht.resolve_right (by positivity)
  have hs0 : s = 0 := by
    have : (s : ℚ) = 0 := by linarith
    exact_mod_cast this
  rcases hmany with rfl | hmany
  · rw [hs0, Nat.cast_zero, add_zero, zero_mul]
  · rw [hs0] at hmany
    norm_num at hmany

end Leads

section

variable {s k : Nat} {x : Int} {g : Magnitude}

/-- A power of ten that the quotient does not pass is not rounded, so that two roundings are left. -/
theorem staged_within_of_neg (hs : s < 0x10000000000000000) (hk : 0 < k) (h : 10 ^ k ≤ s)
    (hg : (Magnitude.ofNat? s).bind (scale? · (-(k : Int))) = some g) :
    Within 2 g.toRat (s * 10 ^ (-(k : Int))) := by
  obtain ⟨f, hf, hg⟩ := Option.bind_eq_some_iff.1 hg
  have hround := Magnitude.rounds_ofNat s
  rw [hf] at hround
  have hk19 : k ≤ 19 := by
    by_contra hlt
    have hpow : 10 ^ 20 ≤ 10 ^ k := Nat.pow_le_pow_right (by decide) (by omega)
    omega
  obtain ⟨p, hr, hscale⟩ := scale?_negative hk (hk19.trans (by decide))
  have hp := rounds_pow_eq (hk19.trans (by decide)) hr
  have hpos : (0 : ℚ) < 10 ^ k := by positivity
  have hdiv := Magnitude.rounds_div f (y := p) (hp ▸ hpos)
  rw [← hscale, hg, hp] at hdiv
  have hpow : (10 : ℚ) ^ k ≤ f.toRat := by
    obtain ⟨y, hy⟩ := exists_toRat_pow (hk19.trans (by decide))
    rw [← hy]
    refine hround.ge ?_
    rw [hy]
    exact_mod_cast h
  have hone : (1 : ℚ) ≤ s := by exact_mod_cast (Nat.one_le_pow k 10 (by decide)).trans h
  have hstage : Within 1 (f.toRat / 10 ^ k) (s * 10 ^ (-(k : Int))) := by
    rw [div_eq_mul_inv, zpow_neg, zpow_natCast]
    exact (hround.within hone).mul (.refl _) (by linarith) (by positivity)
  exact hstage.trans (hdiv.within ((one_le_div hpos).2 hpow))

theorem staged_within_of_nonneg (hpos : 0 < s)
    (hg : (Magnitude.ofNat? s).bind (scale? · (k : Int)) = some g) :
    Within 3 g.toRat (s * 10 ^ (k : Int)) := by
  obtain ⟨f, hf, hg⟩ := Option.bind_eq_some_iff.1 hg
  have hround := Magnitude.rounds_ofNat s
  rw [hf] at hround
  have hone : (1 : ℚ) ≤ s := by exact_mod_cast hpos
  have hf1 : 1 ≤ f.toRat := by
    obtain ⟨y, hy⟩ := Magnitude.exists_toRat_nat (n := 1) (by decide)
    rw [Nat.cast_one] at hy
    rw [← hy] at hone ⊢
    exact hround.ge hone
  by_cases hk : k ≤ maxPower
  · obtain ⟨p, hr, hscale⟩ := scale?_natural hk
    have hmul := Magnitude.rounds_mul f p
    rw [← hscale, hg] at hmul
    have hp1 : 1 ≤ p.toRat := by
      have := le_of_rounds_pow (Nat.zero_le 19) (Nat.zero_le k) hr
      rwa [pow_zero] at this
    have hten : (1 : ℚ) ≤ 10 ^ k := one_le_pow₀ (by norm_num)
    have hstage := (hround.within hone).mul (hr.within hten) (by linarith) (by linarith)
    rw [zpow_natCast]
    exact hstage.trans (hmul.within (one_le_mul_of_one_le_of_one_le hf1 hp1))
  · -- A power of ten that large is only taken with zero.
    rw [scale?, if_neg (by omega), if_neg (by omega), if_neg (by omega), if_neg] at hg
    · cases hg
    · rw [Magnitude.isZero_iff]
      linarith

theorem staged_within (hs : s < 0x10000000000000000) (h : (1 : ℚ) ≤ s * 10 ^ x)
    (hg : (Magnitude.ofNat? s).bind (scale? · x) = some g) : Within 3 g.toRat (s * 10 ^ x) := by
  rcases lt_or_ge x 0 with hx | hx
  · obtain ⟨k, rfl⟩ : ∃ k : Nat, x = -k := ⟨x.natAbs, by omega⟩
    have hpow : 10 ^ k ≤ s := by
      rw [zpow_neg, zpow_natCast, ← div_eq_mul_inv, le_div_iff₀ (by positivity), one_mul] at h
      exact_mod_cast h
    exact (staged_within_of_neg hs (by omega) hpow hg).mono (by decide) (by linarith)
  · lift x to Nat using hx
    have hpos : 0 < s := by
      rcases Nat.eq_zero_or_pos s with rfl | hpos
      · norm_num at h
      · exact hpos
    exact staged_within_of_nonneg hpos hg

end

/-! ### Sides of a bound -/

/-- `r` is on the side of `b` on which `q` is, and not at `b` if `q` is a ten-thousandth away. -/
structure Sides (q r b : ℚ) : Prop where
  le : q ≤ b → r ≤ b
  ge : b ≤ q → b ≤ r
  lt : q ≤ b - 1 / 10000 → r < b
  gt : b + 1 / 10000 ≤ q → b < r

namespace Sides

variable {q r b : ℚ}

theorem neg (h : Sides q r b) : Sides (-q) (-r) (-b) := by
  refine ⟨fun hq => ?_, fun hq => ?_, fun hq => ?_, fun hq => ?_⟩
  · have := h.ge (by linarith)
    linarith
  · have := h.le (by linarith)
    linarith
  · have := h.gt (by linarith)
    linarith
  · have := h.lt (by linarith)
    linarith

theorem of_lt (hq : q < b) (hr : r < b) : Sides q r b := by
  refine ⟨fun _ => hr.le, fun h => ?_, fun _ => hr, fun h => ?_⟩
  · exact absurd h (not_le.2 hq)
  · linarith

end Sides

/-- `g` is on the sides of bounds on which `q` is. -/
def Tracks (q : ℚ) (g : Magnitude) : Prop := ∀ {b : Nat}, IsBound b → 3 ≤ b → Sides q g.toRat b

theorem tracks_zero {q : ℚ} (hq : q < 1) : Tracks q .zero := by
  intro b _ h3
  have hb : (3 : ℚ) ≤ b := by exact_mod_cast h3
  rw [Magnitude.toRat_zero]
  exact .of_lt (by linarith) (by linarith)

/-- A natural number is rounded once, and is a whole step away where it is away at all. -/
theorem tracks_ofNat {m : Nat} {g : Magnitude} (h : Magnitude.ofNat? m = some g) : Tracks m g := by
  intro b hb h3
  have hmax := hb.le
  have hround := Magnitude.rounds_ofNat m
  rw [h] at hround
  have hle : ∀ c ≤ 2001, m ≤ c → g.toRat ≤ c := by
    intro c hc hm
    obtain ⟨y, hy⟩ := Magnitude.exists_toRat_nat (n := c) (by omega)
    obtain ⟨g', hg', hle⟩ := hround.le (y := y) (by rw [hy]; exact_mod_cast hm)
    cases hg'
    exact hy ▸ hle
  have hge : ∀ c ≤ 2001, c ≤ m → c ≤ g.toRat := by
    intro c hc hm
    obtain ⟨y, hy⟩ := Magnitude.exists_toRat_nat (n := c) (by omega)
    rw [← hy]
    exact hround.ge (by rw [hy]; exact_mod_cast hm)
  refine ⟨fun hq => hle b (by omega) (by exact_mod_cast hq),
    fun hq => hge b (by omega) (by exact_mod_cast hq), fun hq => ?_, fun hq => ?_⟩
  · have hm : m < b := by
      have : (m : ℚ) < b := by linarith
      exact_mod_cast this
    have hpred := hle (b - 1) (by omega) (by omega)
    rw [Nat.cast_sub (by omega), Nat.cast_one] at hpred
    linarith
  · have hm : b < m := by
      have : (b : ℚ) < m := by linarith
      exact_mod_cast this
    have hsucc := hge (b + 1) (by omega) hm
    rw [Nat.cast_add, Nat.cast_one] at hsucc
    linarith

theorem tracks_staged {s : Nat} {x : Int} {q : ℚ} {g : Magnitude}
    (hs : s < 0x10000000000000000) (hl : Leads s x q)
    (hg : (Magnitude.ofNat? s).bind (scale? · x) = some g) : Tracks q g := by
  intro b hb h3
  have hle : ∀ {c : Nat}, IsBound c → (s : ℚ) * 10 ^ x ≤ c → g.toRat ≤ c := by
    intro c hc h
    obtain ⟨g', hg', hle⟩ := staged_le hc hs h
    rw [hg] at hg'
    cases hg'
    exact hle
  have hmax : (b : ℚ) ≤ 2000 := by exact_mod_cast hb.le
  have hmin : (3 : ℚ) ≤ b := by exact_mod_cast h3
  refine ⟨fun hq => hle hb (hl.le.trans hq), fun hq => le_staged hb hs
    (hl.ge (hb.le.trans (by norm_num)) hq) hg, fun hq => ?_, fun hq => ?_⟩
  · have hread := hl.le.trans hq
    -- Only a number of at least one has a small error. Below it, two is a bound.
    rcases le_or_gt ((s : ℚ) * 10 ^ x) 1 with hsmall | hlarge
    · have htwo := hle (c := 2) ⟨le_rfl, by decide⟩ (by push_cast; linarith)
      push_cast at htwo
      linarith
    · have hw := (staged_within hs hlarge.le hg).le
      calc g.toRat ≤ s * 10 ^ x * (1 + 1 / 2 ^ 53) ^ 3 := hw
        _ ≤ (b - 1 / 10000) * (1 + 1 / 2 ^ 53) ^ 3 := by gcongr
        _ < b := by norm_num; linarith
  · have hread := hl.near
    have hw := (staged_within hs (by linarith) hg).ge
    calc (b : ℚ) < (b + 1 / 10000) * (1 - 1 / 10 ^ 18) * (1 - 1 / 2 ^ 53) ^ 3 := by
          norm_num; linarith
      _ ≤ q * (1 - 1 / 10 ^ 18) * (1 - 1 / 2 ^ 53) ^ 3 := by gcongr
      _ ≤ s * 10 ^ x * (1 - 1 / 2 ^ 53) ^ 3 := by gcongr
      _ ≤ g.toRat := hw

/-! ### Numerals -/

theorem exponentExcess?_le {e unread : Nat} {ds : List Digit}
    (h : exponentExcess? e ds = some unread) : 2 ^ 31 ≤ e * 10 ^ ds.length + Digits.value ds := by
  induction ds generalizing e with
  | nil => cases h
  | cons d ds ih =>
    have hval : e * 10 ^ (d :: ds).length + Digits.value (d :: ds) =
        (10 * e + d.val) * 10 ^ ds.length + Digits.value ds := by
      rw [Digits.value_cons, List.length_cons, pow_succ]
      ring
    rw [exponentExcess?] at h
    rw [hval]
    split at h
    · exact ih h
    · have hpow : 1 ≤ 10 ^ ds.length := Nat.one_le_pow _ _ (by decide)
      have := Nat.le_mul_of_pos_right (10 * e + d.val) hpow
      omega

/-- Digits before the point do not make up for an exponent of more than their number. -/
theorem toRat_lt_one {n : Numeral} {e : Exponent} (he : n.exponent = some e)
    (hneg : e.negative = true) (hlen : n.whole.length ≤ Digits.value e.digits) : n.toRat < 1 := by
  have hwritten : n.writtenPower = -(Digits.value e.digits : Int) := by
    simp only [Numeral.writtenPower, he, Exponent.signed, hneg, if_true]
  have hc : (n.coefficient : ℚ) < 10 ^ ((n.whole.length + n.fraction.length : Nat) : Int) := by
    have := Digits.value_lt (n.whole ++ n.fraction)
    rw [List.length_append] at this
    rw [zpow_natCast]
    exact_mod_cast this
  have hpow : (0 : ℚ) < 10 ^ n.power := by positivity
  calc n.toRat = n.coefficient * 10 ^ n.power := rfl
    _ < 10 ^ ((n.whole.length + n.fraction.length : Nat) : Int) * 10 ^ n.power :=
      mul_lt_mul_of_pos_right hc hpow
    _ = 10 ^ ((n.whole.length : Int) - Digits.value e.digits) := by
      rw [← zpow_add₀ (by norm_num), Numeral.power, hwritten]
      congr 1
      push_cast
      ring
    _ ≤ 1 := zpow_le_one_of_nonpos₀ (by norm_num) (by omega)

theorem tracks_ofFractional {n : Numeral} {y : Number} (hlen : n.whole.length ≤ 2 ^ 31)
    (h : ofFractional n = .ok y) : ∃ g, y = .float n.negative g ∧ Tracks n.toRat g := by
  by_cases hall : ∀ e ∈ n.exponent, exponentExcess? 0 e.digits = none
  · rw [ofFractional_eq hall] at h
    obtain ⟨g, hg, rfl⟩ := scaled_eq_ok_iff.1 h
    exact ⟨g, rfl, tracks_staged (significand_lt n) (leads_toRat n) hg⟩
  · push Not at hall
    obtain ⟨e, he, hex⟩ := hall
    obtain ⟨unread, hunread⟩ := Option.ne_none_iff_exists'.1 hex
    have hvalue : 2 ^ 31 ≤ Digits.value e.digits := by
      have := exponentExcess?_le hunread
      rwa [Nat.zero_mul, Nat.zero_add] at this
    simp only [ofFractional, Option.mem_def.1 he, hunread] at h
    split at h
    · cases h
    · next hsmall =>
      refine ⟨.zero, (Except.ok.inj h).symm, tracks_zero ?_⟩
      -- The numeral is zero, or a small fraction.
      by_cases hs : (significand n).1 = 0
      · have hl := leads_toRat n
        rw [hs] at hl
        rw [hl.eq_zero]
        norm_num
      · have hneg : e.negative = true := by
          by_contra hpos
          exact hsmall ⟨hs, by simpa using hpos⟩
        exact toRat_lt_one he hneg (hlen.trans hvalue)

end Number

namespace Grammar

open Number (Tracks)

variable {n : Numeral} {x : Number}

theorem IsInteger.toRat_eq {i : Int} (h : IsInteger n i) :
    n.toRat = i.natAbs ∧ decide (i < 0) = n.negative := by
  obtain ⟨hf, he, rfl, hzero⟩ := h
  have hcoefficient : n.coefficient = Digits.value n.whole := by
    rw [Numeral.coefficient, hf, List.append_nil]
  have hpower : n.power = 0 := by
    simp only [Numeral.power, Numeral.writtenPower, he, hf, List.length_nil]
    rfl
  rw [Numeral.toRat, hcoefficient, hpower, zpow_zero, mul_one]
  cases hneg : n.negative with
  | true =>
    have hv : Digits.value n.whole ≠ 0 := by
      intro hv
      exact hzero ⟨hneg, by rw [hneg, hv]; rfl⟩
    rw [if_pos rfl]
    refine ⟨by simp, decide_eq_true ?_⟩
    omega
  | false => simp

/-- The number of a numeral, as a float, has its sign and is on its side of every bound. -/
theorem NumberOf.tracks (hlen : n.whole.length ≤ 2 ^ 31) (h : NumberOf n x) :
    ∃ g, x.toBinary64 = .finite n.negative g ∧ Tracks n.toRat g := by
  cases h with
  | integer hi fits =>
    rename_i i
    obtain ⟨hrat, hneg⟩ := hi.toRat_eq
    obtain ⟨top, htop⟩ := Magnitude.exists_toRat (a := 1) (b := 64) (by decide) (by decide)
    obtain ⟨g, hg, -⟩ := (Magnitude.rounds_ofNat i.natAbs).le (y := top) (by
      rw [htop]
      have : i.natAbs ≤ 2 ^ 64 := by omega
      exact_mod_cast this)
    refine ⟨g, ?_, hrat ▸ Number.tracks_ofNat hg⟩
    rw [Number.toBinary64, hg, hneg]
    rfl
  | float _ hx =>
    obtain ⟨g, rfl, hg⟩ := Number.tracks_ofFractional hlen hx
    exact ⟨g, rfl, hg⟩

end Grammar

end ConfigGate.Json
