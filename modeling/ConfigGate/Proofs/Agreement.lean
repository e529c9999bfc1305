import Mathlib
import ConfigGate.Proofs.Binary64.Integer
import ConfigGate.Proofs.Decimal.NumericGrammar
import ConfigGate.Proofs.Range

/-!
# Numbers and the same numbers as text

A numeral in a document is read in stages, and the same numeral in a string is rounded once. Where
both come to the same binary64 number a field fares the same with either, and where they do not some
bounds tell them apart, unless both are beyond all bounds (`outcome_text`). They are the same for
integers of 64 bits and for numerals in which the stages round only once (`IsPlain`). From one on
they are never further apart than five parts in 2^53.
-/

namespace ConfigGate

open Json.Grammar
open Magnitude (Rounds IsShort)

/-! ### What bounds tell apart -/

namespace Binary64

variable {x z : Binary64}

theorem isBelow_mono {a b : Int} (hab : a ≤ b) (h : x.isBelow a = true) : x.isBelow b = true := by
  cases x with
  | finite s x =>
    have hlt := of_decide_eq_true h
    have hle := Int.mul_le_mul_of_nonneg_right hab (Int.natCast_nonneg Magnitude.perOne)
    exact decide_eq_true (Int.lt_of_lt_of_le hlt hle)
  | infinite s => exact h
  | nan => exact h

theorem isAbove_mono {a b : Int} (hab : b ≤ a) (h : x.isAbove a = true) : x.isAbove b = true := by
  cases x with
  | finite s x =>
    have hlt := of_decide_eq_true h
    have hle := Int.mul_le_mul_of_nonneg_right hab (Int.natCast_nonneg Magnitude.perOne)
    exact decide_eq_true (Int.lt_of_le_of_lt hle hlt)
  | infinite s => exact h
  | nan => exact h

theorem not_isBelow_of_isAbove {a : Int} (h : x.isAbove a = true) : x.isBelow a = false := by
  cases x with
  | finite s x => exact decide_eq_false (Int.lt_asymm (of_decide_eq_true h))
  | infinite s => cases s <;> simp [isAbove, isBelow] at h ⊢
  | nan => rfl

theorem isNaN_ofMagnitude? (negative : Bool) (r : Option Magnitude) :
    (ofMagnitude? negative r).isNaN = false := by
  cases r <;> rfl

/-- What the bounds of a field make of a number. -/
def ranged (x : Binary64) (ge le : Int32) : Except Violation.Kind Binary64 :=
  if x.isNaN || x.isBelow ge.toInt then .error .greaterThanEqual
  else if x.isAbove le.toInt then .error .lessThanEqual
  else .ok x

/-- The number is beyond all bounds that a field can have, on the side that `side` says. -/
def IsBeyond (side : Binary64 → Int → Bool) (x : Binary64) : Prop :=
  ∀ b : Int32, side x b.toInt = true

theorem ranged_eq_iff (hx : x.isNaN = false) (hz : z.isNaN = false) :
    (∀ ge le, x.ranged ge le = z.ranged ge le) ↔
      x = z ∨ (IsBeyond isBelow x ∧ IsBeyond isBelow z) ∨
        (IsBeyond isAbove x ∧ IsBeyond isAbove z) := by
  simp only [ranged, hx, hz, Bool.false_or]
  constructor
  · intro h
    -- The widest bounds tell the most.
    have hwide := h Int32.minValue Int32.maxValue
    have hmin : ∀ b : Int32, Int32.minValue.toInt ≤ b.toInt := fun b => b.minValue_le_toInt
    have hmax : ∀ b : Int32, b.toInt ≤ Int32.maxValue.toInt := fun b => b.toInt_le
    split_ifs at hwide with hx₁ hz₁ hz₂ hx₂ hz₁ hz₂ hz₁ hz₂
    · exact .inr (.inl ⟨fun b => isBelow_mono (hmin b) hx₁, fun b => isBelow_mono (hmin b) hz₁⟩)
    · cases hwide
    · cases hwide
    · exact .inr (.inr ⟨fun b => isAbove_mono (hmax b) hx₂, fun b => isAbove_mono (hmax b) hz₂⟩)
    · exact .inl (Except.ok.inj hwide)
  · rintro (rfl | ⟨hx, hz⟩ | ⟨hx, hz⟩) ge le
    · rfl
    · rw [if_pos (hx ge), if_pos (hz ge)]
    · rw [if_neg (by simp [not_isBelow_of_isAbove (hx ge)]), if_pos (hx le),
        if_neg (by simp [not_isBelow_of_isAbove (hz ge)]), if_pos (hz le)]

end Binary64

/-! ### Numerals that are rounded once -/

/-- The stages round once: the coefficient is a binary64 number of 64 bits, as all of fifteen digits
are, and the power of ten is one as well. The last bound is that of exponents in numeric texts. -/
structure Numeral.IsPlain (n : Numeral) : Prop where
  lt : n.coefficient < 0x10000000000000000
  isShort : IsShort n.coefficient
  power : n.power.natAbs ≤ 22
  writtenPower : n.writtenPower.natAbs < 0x10000

namespace Json.Number

theorem isNaN_toBinary64 (y : Number) : y.toBinary64.isNaN = false := by
  cases y with
  | integer => exact Binary64.isNaN_ofMagnitude? _ _
  | float => rfl

theorem rounds_staged {c : Nat} {x : Int} (hlt : c < 0x10000000000000000) (hc : IsShort c)
    (hx : x.natAbs ≤ 22) : Rounds (c * 10 ^ x) ((Magnitude.ofNat? c).bind (scale? · x)) := by
  obtain ⟨f, hf⟩ := hc.exists_toRat (hlt.trans (by decide))
  have hround := Magnitude.rounds_ofNat c
  rw [← hf] at hround ⊢
  rw [hround.eq, Option.bind_some]
  rcases lt_or_ge x 0 with hneg | hpos
  · obtain ⟨k, rfl⟩ : ∃ k : Nat, x = -k := ⟨x.natAbs, by omega⟩
    obtain ⟨p, hp, hscale⟩ := scale?_negative (k := k) (by omega) (by simp only [maxPower]; omega)
    have hten := rounds_pow_eq (by omega) hp
    have hdiv := Magnitude.rounds_div f (y := p) (by rw [hten]; positivity)
    rwa [← hscale, hten, div_eq_mul_inv, ← zpow_natCast, ← zpow_neg] at hdiv
  · lift x to Nat using hpos
    obtain ⟨p, hp, hscale⟩ := scale?_natural (k := x) (by simp only [maxPower]; omega)
    have hmul := Magnitude.rounds_mul f p
    rwa [← hscale, rounds_pow_eq (by omega) hp, ← zpow_natCast] at hmul

theorem significand_of_lt {n : Numeral} (h : n.coefficient < 0x10000000000000000) :
    significand n = (n.coefficient, -(n.fraction.length : Int)) := by
  have hc : n.coefficient = Digits.value n.whole * 10 ^ n.fraction.length +
      Digits.value n.fraction := Digits.value_append n.whole n.fraction
  have hwhole : gather 0 n.whole = (Digits.value n.whole, n.whole.length) := by
    have hle := Nat.le_mul_of_pos_right (Digits.value n.whole)
      (Nat.pow_pos (n := n.fraction.length) (by decide : 0 < 10))
    have := @gather_of_lt 0 n.whole (by rw [Nat.zero_mul]; omega)
    rwa [Nat.zero_mul, Nat.zero_add] at this
  have hfraction := @gather_of_lt (Digits.value n.whole) n.fraction (hc ▸ h)
  rw [← hc] at hfraction
  simp only [significand, hwhole, hfraction]
  rw [Int.sub_self, Int.zero_sub]

/-- An exponent that numeric texts take as it is written is taken so by the stages too. -/
theorem exponentExcess?_of_writtenPower {n : Numeral} (h : n.writtenPower.natAbs < 0x10000) :
    ∀ e ∈ n.exponent, exponentExcess? 0 e.digits = none := by
  intro e he
  by_contra hne
  obtain ⟨unread, hunread⟩ := Option.ne_none_iff_exists'.1 hne
  have hlong := exponentExcess?_le hunread
  simp only [Numeral.writtenPower, Option.mem_def.1 he, Exponent.signed] at h
  split_ifs at h <;> omega

/-- The one rounding of a plain numeral. -/
theorem ofFractional_of_isPlain {n : Numeral} (h : n.IsPlain) {y : Number}
    (hy : ofFractional n = .ok y) : ∃ g, y = .float n.negative g ∧ Rounds n.toRat (some g) := by
  rw [ofFractional_eq (exponentExcess?_of_writtenPower h.writtenPower), significand_of_lt h.lt,
    neg_add_eq_sub] at hy
  obtain ⟨g, hg, rfl⟩ := scaled_eq_ok_iff.1 hy
  have hround := rounds_staged h.lt h.isShort h.power
  rw [Numeral.power, hg] at hround
  exact ⟨g, rfl, hround⟩

/-- Three roundings, and the digits that 64 bits do not hold. -/
theorem ofFractional_near {n : Numeral} (hq : 1 ≤ n.toRat) (hw : n.writtenPower.natAbs < 0x10000)
    {y : Number} (hy : ofFractional n = .ok y) :
    ∃ g, y = .float n.negative g ∧ n.toRat * (1 - 1 / 10 ^ 18) * (1 - 1 / 2 ^ 53) ^ 3 ≤ g.toRat ∧
      g.toRat ≤ n.toRat * (1 + 1 / 2 ^ 53) ^ 3 := by
  rw [ofFractional_eq (exponentExcess?_of_writtenPower hw)] at hy
  obtain ⟨g, hg, rfl⟩ := scaled_eq_ok_iff.1 hy
  have hleads := leads_toRat n
  have hone := hleads.ge (b := 1) (by norm_num) (by rwa [Nat.cast_one])
  rw [Nat.cast_one] at hone
  have hwithin := staged_within (significand_lt n) hone hg
  refine ⟨g, rfl, le_trans ?_ hwithin.ge, hwithin.le.trans ?_⟩
  · exact mul_le_mul_of_nonneg_right hleads.near (by norm_num)
  · exact mul_le_mul_of_nonneg_right hleads.le (by positivity)

end Json.Number

/-! ### Numbers of literals -/

namespace Json.Grammar

theorem blanks_eq_nil {s : List Char} (hb : Blanks s) (h : ∀ c ∈ s, Text.isBlank c = false) :
    s = [] := by
  rcases s with - | ⟨c, s⟩
  · rfl
  · have hblank := isBlank_eq_true_iff.1 (hb c List.mem_cons_self)
    have hnot := h c List.mem_cons_self
    rcases hblank with rfl | rfl | rfl | rfl <;> exact absurd hnot (by decide)

/-- The number of a literal that is a whole text. -/
theorem NumeralText.parse_iff {t : List Char} {n : Numeral} (ht : NumeralText t n) {y : Number} :
    parse t = .ok (.number y) ↔ NumberOf n y := by
  rw [parse_eq_ok_iff]
  constructor
  · intro h
    have hblank := ht.not_isBlank
    obtain ⟨hb, hvalue, ha⟩ := h
    obtain rfl := blanks_eq_nil hb fun c hc => hblank c (by simp [hc])
    obtain rfl := blanks_eq_nil ha fun c hc => hblank c (by simp [hc])
    rw [List.nil_append, List.append_nil] at ht
    obtain ⟨z, hz, hn⟩ := hvalue.number_of_numeralText ht
    cases hz
    exact hn
  · intro hy
    have h : Denotes ([] ++ (t ++ [])) (.number y) := .mk .nil (.number ht hy) .nil
    rwa [List.nil_append, List.append_nil] at h

end Json.Grammar

namespace NumericText

open Json (Number)

variable {n : Numeral} {y : Number}

theorem isNaN_nearest (n : Numeral) : (nearest n).isNaN = false := Binary64.isNaN_ofMagnitude? _ _

theorem toBinary64_of_integer {i : Int} (hi : IsInteger n i) (fits) :
    (Number.integer i fits).toBinary64 = nearest n := by
  obtain ⟨hrat, hnegative⟩ := hi.toRat_eq
  have hround := Magnitude.rounds_ofNat i.natAbs
  rw [← hrat] at hround
  have hwritten : n.writtenPower = 0 := by simp only [Numeral.writtenPower, hi.2.1]
  rw [nearest_of_rounds (by rw [hwritten]; decide) hround, Number.toBinary64, hnegative]

theorem toBinary64_of_isPlain (h : n.IsPlain) (hy : NumberOf n y) : y.toBinary64 = nearest n := by
  cases hy with
  | integer hi fits => exact toBinary64_of_integer hi fits
  | float _ hy =>
    obtain ⟨g, rfl, hround⟩ := Number.ofFractional_of_isPlain h hy
    rw [nearest_of_rounds h.writtenPower hround]
    rfl

theorem near_nearest {g h : Magnitude} {s s' : Bool} (hy : NumberOf n y) (hq : 1 ≤ n.toRat)
    (hw : n.writtenPower.natAbs < 0x10000) (hg : y.toBinary64 = .finite s g)
    (hh : nearest n = .finite s' h) : s = s' ∧ 2 ^ 53 * |g.toRat - h.toRat| ≤ 5 * n.toRat := by
  cases hy with
  | integer hi fits =>
    rw [toBinary64_of_integer hi fits, hh] at hg
    cases hg
    refine ⟨rfl, ?_⟩
    rw [sub_self, abs_zero, mul_zero]
    linarith
  | float _ hx =>
    obtain ⟨f, rfl, hge, hle⟩ := Number.ofFractional_near hq hw hx
    cases hg
    have hround : Rounds n.toRat _ := Magnitude.rounds_ofDecimal n.coefficient n.power
    rw [nearest_of_rounds hw hround] at hh
    generalize Magnitude.ofDecimal? n.coefficient n.power = r at hround hh
    rcases r with - | z
    · cases hh
    · cases hh
      have hwithin := hround.within hq
      have hge' := hwithin.ge
      have hle' := hwithin.le
      refine ⟨rfl, ?_⟩
      have habs : |g.toRat - h.toRat| ≤ 5 * n.toRat / 2 ^ 53 := by
        norm_num at hge hle hge' hle' ⊢
        rw [abs_le]
        constructor <;> linarith
      rw [le_div_iff₀ (by norm_num)] at habs
      linarith

end NumericText

namespace Coercion

/-- The number of a value within bounds, or the kind of the violation. -/
def outcome (field : String) (value : Json) (ge le : Int32) : Except Violation.Kind Binary64 :=
  (number field value ge le).mapError (·.kind)

theorem outcome_of_readNumber {field : String} {value : Json} {x : Binary64}
    (h : readNumber field value = .ok x) (ge le : Int32) :
    outcome field value ge le = x.ranged ge le := by
  simp only [outcome, number, h, bind, Except.bind, Binary64.ranged]
  split_ifs <;> rfl

end Coercion

open Coercion (outcome)
open Binary64 (IsBeyond isBelow isAbove)

/-- What becomes of a literal as a number and as a string. Both come to the same for plain numerals
and for integers of 64 bits, and in general if and only if they stand for one binary64 number, or
for two that no bounds tell apart. -/
theorem outcome_text {t : List Char} {n : Numeral} {y : Json.Number} (ht : NumeralText t n)
    (hy : Json.parse t = .ok (.number y)) :
    (n.IsPlain ∨ (∃ i, IsInteger n i ∧ -0x8000000000000000 ≤ i ∧ i < 0x10000000000000000) →
      ∀ field ge le,
        outcome field (.number y) ge le = outcome field (.string (.ofList t)) ge le) ∧
    ((∀ field ge le,
        outcome field (.number y) ge le = outcome field (.string (.ofList t)) ge le) ↔
      y.toBinary64 = NumericText.nearest n ∨
      (IsBeyond isBelow y.toBinary64 ∧ IsBeyond isBelow (NumericText.nearest n)) ∨
      (IsBeyond isAbove y.toBinary64 ∧ IsBeyond isAbove (NumericText.nearest n))) ∧
    (1 ≤ n.toRat → n.writtenPower.natAbs < 0x10000 → ∀ s g s' h, y.toBinary64 = .finite s g →
      NumericText.nearest n = .finite s' h →
      s = s' ∧ 2 ^ 53 * |g.toRat - h.toRat| ≤ 5 * n.toRat) := by
  have hnumber := ht.parse_iff.1 hy
  have houtcome : ∀ field ge le,
      outcome field (.number y) ge le = y.toBinary64.ranged ge le ∧
      outcome field (.string (.ofList t)) ge le = (NumericText.nearest n).ranged ge le :=
    fun field ge le => ⟨Coercion.outcome_of_readNumber rfl ge le,
      Coercion.outcome_of_readNumber (Coercion.readNumber_text field ht) ge le⟩
  have hagree := Binary64.ranged_eq_iff y.isNaN_toBinary64 (NumericText.isNaN_nearest n)
  refine ⟨fun h field ge le => ?_, ⟨fun h => hagree.1 fun ge le => ?_, fun h field ge le => ?_⟩,
    fun hq hw s g s' h hg hh => NumericText.near_nearest hnumber hq hw hg hh⟩
  · have heq : y.toBinary64 = NumericText.nearest n := by
      rcases h with hplain | ⟨i, hi, hfits⟩
      · exact NumericText.toBinary64_of_isPlain hplain hnumber
      · cases hnumber with
        | integer hj fits => exact NumericText.toBinary64_of_integer hj fits
        | float hno _ => exact absurd hfits (hno i hi)
    rw [(houtcome field ge le).1, (houtcome field ge le).2, heq]
  · have := h "" ge le
    rwa [(houtcome "" ge le).1, (houtcome "" ge le).2] at this
  · rw [(houtcome field ge le).1, (houtcome field ge le).2]
    exact hagree.2 h ge le

/-- A numeral with a point and an exponent. -/
theorem outcome_text_plain :
    ∃ y, Json.parse "1234.5678e-3".toList = .ok (.number y) ∧
      outcome "temperature" (.number y) (-50) 150 =
        outcome "temperature" (.string "1234.5678e-3") (-50) 150 := by
  let n : Numeral := ⟨false, [1, 2, 3, 4], [5, 6, 7, 8], some ⟨true, [3]⟩⟩
  have ht : NumeralText "1234.5678e-3".toList n :=
    @NumeralText.mk n.whole n.fraction n.exponent _ _ false ⟨by decide, by decide⟩
      (.digits (by decide)) (@ExponentText.digits 'e' ['-'] true [3] (.inl rfl) .minus (by decide))
  have hc : n.coefficient = 12345678 := by decide
  have hp : n.power = -7 := by decide
  have hplain : n.IsPlain := by
    refine ⟨?_, .of_lt ?_, ?_, by decide⟩
    · rw [hc]
      decide
    · rw [hc]
      decide
    · rw [hp]
      decide
  obtain ⟨g, hg, -⟩ := Json.Number.ofFractional_le (n := n) (b := 2000) ⟨by decide, by decide⟩
    (by rw [Numeral.toRat, hc, hp]; norm_num) (by simp [n])
  have hy : NumberOf n (.float false g) :=
    .float (fun i hi => absurd hi (Json.Grammar.not_isInteger (by decide) i)) hg
  have hparse := ht.parse_iff.2 hy
  exact ⟨.float false g, hparse, (outcome_text ht hparse).1 (.inl hplain) "temperature" (-50) 150⟩

/-- A literal a little above the bound, which is nearer to the bound than to the next number. -/
theorem outcome_text_differs :
    ∃ y, Json.parse "150.0000000000000129".toList = .ok (.number y) ∧
      outcome "temperature" (.number y) (-50) 150 = .error .lessThanEqual ∧
      outcome "temperature" (.string "150.0000000000000129") (-50) 150 =
        .ok (.finite false ⟨0x4062c00000000000, by decide⟩) := by
  let n : Numeral := ⟨false, [1, 5, 0], [0, 0, 0, 0, 0, 0, 0, 0, 0, 0, 0, 0, 0, 1, 2, 9], none⟩
  have ht : NumeralText "150.0000000000000129".toList n :=
    @NumeralText.mk n.whole n.fraction none _ _ false ⟨by decide, by decide⟩
      (.digits (by decide)) .absent
  have hc : n.coefficient = 1500000000000000129 := by decide
  have hscale : (Magnitude.ofNat? 1500000000000000129).bind (Json.Number.scale? · (-16)) =
      some ⟨0x4062c00000000001, by decide⟩ := by
    have hf : Magnitude.ofNat? 1500000000000000129 = some ⟨0x43b4d1120d7b1601, by decide⟩ := by
      decide +kernel
    rw [hf, Option.bind_some, Json.Number.scale?, if_neg (by decide), if_pos (by decide)]
    decide +kernel
  have hy : NumberOf n (.float false ⟨0x4062c00000000001, by decide⟩) := by
    refine .float (fun i hi => absurd hi (Json.Grammar.not_isInteger (by decide) i)) ?_
    rw [Json.Number.ofFractional_eq (by simp [n]),
      Json.Number.significand_of_lt (by rw [hc]; decide), hc]
    exact Json.Number.scaled_eq_ok_iff.2 ⟨_, hscale, rfl⟩
  have hparse := ht.parse_iff.2 hy
  refine ⟨_, hparse, ?_, ?_⟩
  · rw [Coercion.outcome_of_readNumber rfl]
    decide +kernel
  · have hread : Coercion.readNumber "temperature" (.string "150.0000000000000129") =
        .ok (NumericText.nearest n) := Coercion.readNumber_text "temperature" ht
    rw [Coercion.outcome_of_readNumber hread]
    decide +kernel

end ConfigGate
