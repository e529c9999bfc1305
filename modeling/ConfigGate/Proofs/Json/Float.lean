import Mathlib
import ConfigGate.Decimal.Layout
import ConfigGate.Proofs.Coercion
import ConfigGate.Proofs.Decimal.Shortest
import ConfigGate.Proofs.Json.Staging

/-!
# Written floats

Whatever the layout, the text of a float is a numeral with a fraction or an exponent, and it stands
for the decimal that was chosen. An exponent is written only outside the positional range. Read in
stages, a number from one bound to another comes back as a number between the same bounds, though not
always as itself.
-/

namespace ConfigGate

open Json.Grammar

/-- Zeros behind digits are a power of ten. -/
theorem mul_pow_mul_zpow (v j : Nat) {k m : Int} (h : m = j + k) :
    ((v * 10 ^ j : Nat) : ℚ) * 10 ^ k = v * 10 ^ m := by
  rw [h, zpow_add₀ (by norm_num), zpow_natCast]
  push_cast
  ring

namespace Scientific

/-- The number that a decimal stands for. -/
def toRat (d : Scientific) : ℚ :=
  Digits.value d.digits * 10 ^ (d.exponent - (d.digits.length - 1 : Nat))

/-- There is a first digit and it is not zero. -/
structure IsNormal (d : Scientific) : Prop where
  head : ∃ first rest, d.digits = first :: rest ∧ first ≠ Digit.zero

theorem IsNormal.isWhole {d : Scientific} (h : d.IsNormal) (zeros : List Digit) :
    IsWhole (d.digits ++ zeros) := by
  obtain ⟨first, rest, hd, hne⟩ := h.head
  rw [hd]
  exact ⟨by simp, fun hz => absurd (by simpa using hz) hne⟩

theorem IsNormal.bounds {d : Scientific} (h : d.IsNormal) :
    10 ^ d.exponent ≤ d.toRat ∧ d.toRat < 10 ^ (d.exponent + 1) := by
  obtain ⟨first, rest, hd, hne⟩ := h.head
  have hlow : 10 ^ rest.length ≤ Digits.value (first :: rest) := Digits.pow_le_value hne
  have hhigh := Digits.value_lt (first :: rest)
  rw [toRat, hd, List.length_cons, Nat.add_sub_cancel]
  constructor
  · calc (10 : ℚ) ^ d.exponent = 10 ^ rest.length * 10 ^ (d.exponent - rest.length) := by
          rw [← zpow_natCast, ← zpow_add₀ (by norm_num)]
          ring_nf
      _ ≤ _ := by
          gcongr
          exact_mod_cast hlow
  · calc _ < (10 : ℚ) ^ (rest.length + 1) * 10 ^ (d.exponent - rest.length) := by
          gcongr
          exact_mod_cast hhigh
      _ = 10 ^ (d.exponent + 1) := by
          rw [← zpow_natCast, ← zpow_add₀ (by norm_num)]
          push_cast
          ring_nf

theorem isNormal_ofDecimal {c : Nat} (hc : c ≠ 0) (p : Int) : (ofDecimal c p).IsNormal := by
  obtain ⟨zeros, hds, hzeros⟩ := Digits.dropZeros_append (Digits.decimal c)
  have hne : Digits.dropZeros (Digits.decimal c) ≠ [] := by
    intro hnil
    rw [hnil, List.nil_append] at hds
    have := Digits.value_decimal c
    rw [hds, Digits.value_zeros hzeros] at this
    exact hc this.symm
  obtain ⟨first, rest, hd⟩ := List.exists_cons_of_ne_nil hne
  refine ⟨first, rest, hd, ?_⟩
  rintro rfl
  refine hc (Digits.decimal_head c ?_)
  rw [hds, hd]
  rfl

theorem toRat_ofDecimal {c : Nat} (hc : c ≠ 0) (p : Int) : (ofDecimal c p).toRat = c * 10 ^ p := by
  obtain ⟨first, rest, hd, -⟩ := (isNormal_ofDecimal hc p).head
  obtain ⟨zeros, hds, hzeros⟩ := Digits.dropZeros_append (Digits.decimal c)
  have hlen : (Digits.decimal c).length =
      (Digits.dropZeros (Digits.decimal c)).length + zeros.length := by
    rw [← List.length_append, ← hds]
  have hval : c = Digits.value (Digits.dropZeros (Digits.decimal c)) * 10 ^ zeros.length := by
    have := Digits.value_append (Digits.dropZeros (Digits.decimal c)) zeros
    rwa [← hds, Digits.value_decimal, Digits.value_zeros hzeros, Nat.add_zero] at this
  have hpos : 0 < (Digits.dropZeros (Digits.decimal c)).length := by
    rw [show Digits.dropZeros (Digits.decimal c) = first :: rest from hd]
    exact Nat.succ_pos _
  simp only [toRat, ofDecimal]
  generalize Digits.dropZeros (Digits.decimal c) = ds at hlen hval hpos
  rw [hlen, hval]
  exact (mul_pow_mul_zpow _ _ (by omega)).symm

/-! ### Layouts -/

/-- What a text of a decimal says. -/
structure Spells (layout : Layout) (negative : Bool) (d : Scientific) (text : List Char)
    (n : Numeral) : Prop where
  text : NumeralText text n
  negative : n.negative = negative
  toRat : n.toRat = d.toRat
  notInteger : ¬ (n.fraction = [] ∧ n.exponent = none)
  exponent : ∀ e ∈ n.exponent, (e.negative = decide (d.exponent < 0)) ∧
    ¬ (layout.plainFrom ≤ d.exponent ∧ d.exponent < layout.plainBelow)

variable {d : Scientific} {layout : Layout}

/-- Digits before and after the point. -/
theorem spells_plain (negative : Bool) (whole fraction : List Digit) {t : List Char}
    (hw : IsWhole whole) (hf : fraction ≠ [])
    (ht : t = whole.map Digit.char ++ '.' :: fraction.map Digit.char)
    (hval : (Digits.value (whole ++ fraction) : ℚ) * 10 ^ (-(fraction.length : Int)) = d.toRat) :
    ∃ n, Spells layout negative d ((if negative then ['-'] else []) ++ t) n := by
  refine ⟨⟨negative, whole, fraction, none⟩, ?_, rfl, ?_, fun h => hf h.1, by simp⟩
  · have := NumeralText.mk negative hw (.digits hf) .absent
    rwa [List.append_nil, ← ht] at this
  · rw [← hval, Numeral.toRat, Numeral.power, Numeral.writtenPower, Int.zero_sub]
    rfl

theorem spells_positional (h : d.IsNormal) (negative : Bool) :
    ∃ n, Spells layout negative d ((if negative then ['-'] else []) ++ d.positional) n := by
  obtain ⟨first, rest, hd, hfirst⟩ := h.head
  have hne : d.digits ≠ [] := by simp [hd]
  have hlen : 0 < d.digits.length := List.length_pos_iff.2 hne
  have hzero : Digit.zero.char = '0' := rfl
  rcases Int.lt_or_le d.exponent 0 with hneg | hpos
  · obtain ⟨k, hk⟩ : ∃ k : Nat, -d.exponent = k + 1 := ⟨d.exponent.natAbs - 1, by omega⟩
    refine spells_plain negative [Digit.zero] (List.replicate k Digit.zero ++ d.digits)
      ⟨by simp, fun _ => rfl⟩ (by simp [hne]) ?_ ?_
    · have hk' : (-d.exponent).toNat - 1 = k := by omega
      simp [positional, hneg, hk', hzero]
    · have hval : Digits.value ([Digit.zero] ++ (List.replicate k Digit.zero ++ d.digits)) =
          Digits.value d.digits := by
        rw [List.singleton_append, Digits.value_cons, Digits.value_append,
          Digits.value_replicate_zero, Digit.zero]
        simp
      rw [hval, toRat, List.length_append, List.length_replicate]
      congr 2
      omega
  · obtain ⟨e, he⟩ : ∃ e : Nat, d.exponent.toNat = e := ⟨_, rfl⟩
    have hneg : ¬ d.exponent < 0 := by omega
    rcases Nat.lt_or_ge (e + 1) d.digits.length with hlong | hshort
    · refine spells_plain negative (d.digits.take (e + 1)) (d.digits.drop (e + 1)) ?_ ?_ ?_ ?_
      · rw [hd, List.take_succ_cons]
        exact ⟨by simp, fun hz => absurd (by simpa using hz) hfirst⟩
      · simpa using hlong
      · simp [positional, hneg, he, hlong, List.map_take, List.map_drop]
      · rw [List.take_append_drop, List.length_drop, toRat]
        congr 2
        omega
    · refine spells_plain negative (d.digits ++ List.replicate (e + 1 - d.digits.length) Digit.zero)
        [Digit.zero] (h.isWhole _) (by simp) ?_ ?_
      · simp [positional, hneg, he, hshort, hzero]
      · rw [List.append_assoc, Digits.value_append, ← List.replicate_succ',
          Digits.value_replicate_zero, List.length_replicate, Nat.add_zero, toRat]
        exact mul_pow_mul_zpow _ _ (by simp only [List.length_singleton]; omega)

theorem spells_exponent (h : d.IsNormal) (negative : Bool)
    (hplain : ¬ (layout.plainFrom ≤ d.exponent ∧ d.exponent < layout.plainBelow)) :
    ∃ n, Spells layout negative d ((if negative then ['-'] else []) ++
      (d.mantissa ++ ['e'] ++ exponentText layout d.exponent)) n := by
  obtain ⟨first, rest, hd, hfirst⟩ := h.head
  let e : Exponent :=
    ⟨decide (d.exponent < 0), Digits.padded layout.exponentWidth d.exponent.natAbs⟩
  have hpower : e.signed (Digits.value e.digits) = d.exponent := by
    simp only [e, Exponent.signed, Digits.value_padded, decide_eq_true_eq]
    split <;> omega
  obtain ⟨sign, hsign, htext⟩ : ∃ sign, ExponentSign sign e.negative ∧
      exponentText layout d.exponent = sign ++ e.digits.map Digit.char := by
    simp only [exponentText, paddedText_eq, e]
    split
    · exact ⟨['-'], by simpa [*] using .minus, rfl⟩
    · split
      · exact ⟨['+'], by simpa [*] using .plus, rfl⟩
      · exact ⟨[], by simpa [*] using .absent, rfl⟩
  obtain ⟨f, hf, hmantissa⟩ : ∃ f, FractionText f rest ∧
      d.mantissa = [first].map Digit.char ++ f := by
    simp only [mantissa, hd]
    cases rest with
    | nil => exact ⟨[], .absent, rfl⟩
    | cons r rest => exact ⟨_, .digits (by simp), rfl⟩
  have hw : IsWhole [first] := ⟨by simp, fun _ => rfl⟩
  have he : ExponentText ('e' :: (sign ++ e.digits.map Digit.char)) (some e) :=
    .digits (.inl rfl) hsign (Digits.padded_ne_nil _ _)
  refine ⟨⟨negative, [first], rest, some e⟩, ?_, rfl, ?_, by simp, ?_⟩
  · have := NumeralText.mk negative hw hf he
    rw [hmantissa, htext]
    simpa using this
  · simp only [Numeral.toRat, Numeral.power, Numeral.writtenPower, Numeral.coefficient, hpower,
      toRat, hd, List.singleton_append, List.length_cons, Nat.add_sub_cancel]
  · simpa [e] using hplain

theorem exists_spells (h : d.IsNormal) (layout : Layout) (negative : Bool) :
    ∃ n, Spells layout negative d ((if negative then ['-'] else []) ++ d.render layout) n := by
  by_cases hplain : layout.plainFrom ≤ d.exponent ∧ d.exponent < layout.plainBelow
  · rw [render, if_pos hplain]
    exact spells_positional h negative
  · rw [render, if_neg hplain]
    exact spells_exponent h negative hplain

end Scientific

namespace Magnitude

/-- What the text of a magnitude says: a numeral that is not an integer, with a value that no small
natural number separates from the magnitude. -/
structure Shows (layout : Layout) (x : Magnitude) (n : Numeral) : Prop where
  rounds : Rounds n.toRat (some x)
  notInteger : ¬ (n.fraction = [] ∧ n.exponent = none)
  le : ∀ b : Nat, b + 1 < 2 ^ 53 → x.toRat ≤ b → n.toRat ≤ b
  ge : ∀ b : Nat, b < 2 ^ 53 → b ≤ x.toRat → b ≤ n.toRat
  exponent : ∀ e ∈ n.exponent,
    e.negative = true ∧ n.toRat < 10 ^ layout.plainFrom ∨
      e.negative = false ∧ 10 ^ layout.plainBelow ≤ n.toRat

theorem shows_zero (layout : Layout) (negative : Bool) :
    Shows layout zero ⟨negative, [Digit.zero], [Digit.zero], none⟩ := by
  have h : (⟨negative, [Digit.zero], [Digit.zero], none⟩ : Numeral).toRat = zero.toRat := by
    rw [toRat_zero, Numeral.toRat, Numeral.coefficient]
    simp [Digits.value, Digit.zero]
  refine ⟨?_, by simp, fun b _ hb => h ▸ hb, fun b _ hb => h ▸ hb, by simp⟩
  rw [h, ← nearest?_units]
  exact rounds_toRat zero

theorem exists_shows {layout : Layout} (hlayout : layout.plainFrom ≤ 0 ∧ 0 ≤ layout.plainBelow)
    (negative : Bool) (x : Magnitude) :
    ∃ n, NumeralText (x.render layout negative) n ∧ n.negative = negative ∧ x.Shows layout n := by
  rw [render]
  by_cases hx : x.isZero = true
  · obtain rfl : x = zero := ext (of_decide_eq_true hx)
    have hw : IsWhole [Digit.zero] := ⟨by simp, fun _ => rfl⟩
    have hf : FractionText ('.' :: [Digit.zero].map Digit.char) [Digit.zero] := .digits (by simp)
    exact ⟨_, .mk negative hw hf .absent, rfl, shows_zero layout negative⟩
  · have happ := approximates_shortest layout.tie x
    have hc := happ.ne_zero (by simpa using hx)
    rw [if_neg (c := x.isZero = true) hx, Scientific.ofMagnitude]
    generalize x.shortest layout.tie = decimal at happ hc ⊢
    obtain ⟨c, p⟩ := decimal
    dsimp only at happ hc ⊢
    have hnormal := Scientific.isNormal_ofDecimal hc p
    obtain ⟨n, hn⟩ := Scientific.exists_spells hnormal layout negative
    have hq : n.toRat = c * 10 ^ p := hn.toRat.trans (Scientific.toRat_ofDecimal hc p)
    refine ⟨n, hn.text, hn.negative, ?_, hn.notInteger, ?_, ?_, ?_⟩
    · exact hq ▸ happ.rounds
    · exact fun b hb hle => hq ▸ happ.le hb hle
    · exact fun b hb hle => hq ▸ happ.ge hb hle
    · intro e he
      obtain ⟨hsign, hplain⟩ := hn.exponent e he
      obtain ⟨hlow, hhigh⟩ := hnormal.bounds
      rw [← hn.toRat] at hlow hhigh
      rcases Int.lt_or_le (Scientific.ofDecimal c p).exponent 0 with hneg | hpos
      · refine .inl ⟨by rw [hsign, decide_eq_true hneg], hhigh.trans_le ?_⟩
        exact zpow_le_zpow_right₀ (by norm_num) (by omega)
      · refine .inr ⟨by rw [hsign, decide_eq_false (Int.not_lt.2 hpos)], le_trans ?_ hlow⟩
        exact zpow_le_zpow_right₀ (by norm_num) (by omega)

/-! ### Reading back -/

section

open Json.Number

variable {layout : Layout} {x : Magnitude} {n : Numeral} {b : Nat}

theorem lt_pow_of_isBound (hb : IsBound b) {p : Int} (hp : 4 ≤ p) : (b : ℚ) < 10 ^ p := by
  have hpow : (10 : ℚ) ^ (4 : Int) ≤ 10 ^ p := zpow_le_zpow_right₀ (by norm_num) hp
  have hle : (b : ℚ) ≤ 2000 := by exact_mod_cast hb.le
  norm_num at hpow
  linarith

theorem Shows.ofFractional_le (h : x.Shows layout n) (hlayout : 4 ≤ layout.plainBelow)
    (hb : IsBound b) (hx : x.toRat ≤ b) :
    ∃ g, ofFractional n = .ok (.float n.negative g) ∧ g.toRat ≤ b := by
  have hn : n.toRat ≤ b := h.le b (by have := hb.le; omega) hx
  refine Json.Number.ofFractional_le hb hn fun e he hpos => ?_
  -- A numeral with a positive exponent is beyond every bound.
  rcases h.exponent e he with ⟨hneg, -⟩ | ⟨-, hlarge⟩
  · rw [hpos] at hneg
    cases hneg
  · exact absurd (hlarge.trans hn) (not_le.2 (lt_pow_of_isBound hb hlayout))

theorem Shows.le_ofFractional (h : x.Shows layout n)
    (hlayout : layout.plainFrom ≤ 0 ∧ 4 ≤ layout.plainBelow) {a : Nat} (ha : IsBound a)
    (hx : a ≤ x.toRat) (hb : IsBound b) (hxb : x.toRat ≤ b) {g : Magnitude}
    (hg : ofFractional n = .ok (.float n.negative g)) : a ≤ g.toRat := by
  have hn : a ≤ n.toRat := h.ge a (by have := ha.le; omega) hx
  have hnb : n.toRat ≤ b := h.le b (by have := hb.le; omega) hxb
  refine Json.Number.le_ofFractional ha hn (fun e he => ?_) hg
  -- Between two bounds a numeral has no exponent.
  rcases h.exponent e he with ⟨-, hsmall⟩ | ⟨-, hlarge⟩
  · have hpow : (10 : ℚ) ^ layout.plainFrom ≤ 10 ^ (0 : Int) :=
      zpow_le_zpow_right₀ (by norm_num) hlayout.1
    have htwo : (2 : ℚ) ≤ a := by exact_mod_cast ha.two_le
    rw [zpow_zero] at hpow
    linarith
  · exact absurd (hlarge.trans hnb) (not_le.2 (lt_pow_of_isBound hb hlayout.2))

end

end Magnitude

namespace Binary64

/-- The value of a signed magnitude. -/
def signedRat (s : Bool) (x : Magnitude) : ℚ := if s then -x.toRat else x.toRat

theorem signedRat_true (x : Magnitude) : signedRat true x = -x.toRat := if_pos rfl

theorem signedRat_false (x : Magnitude) : signedRat false x = x.toRat := if_neg Bool.false_ne_true

theorem abs_signedRat (s : Bool) (x : Magnitude) : |signedRat s x| = x.toRat := by
  cases s with
  | true => rw [signedRat_true, abs_neg, abs_of_nonneg x.toRat_nonneg]
  | false => rw [signedRat_false, abs_of_nonneg x.toRat_nonneg]

theorem signedUnits_eq (s : Bool) (x : Magnitude) :
    (x.signedUnits s : ℚ) = signedRat s x * Magnitude.perOne := by
  rw [Magnitude.signedUnits, signedRat]
  split
  · push_cast
    rw [x.units_eq_toRat, neg_mul]
  · push_cast
    exact x.units_eq_toRat

theorem between_iff_signedRat {s : Bool} {x : Magnitude} {lo hi : Int} :
    (finite s x).Between lo hi ↔ lo ≤ signedRat s x ∧ signedRat s x ≤ hi := by
  have hpos := Magnitude.perOne_pos_rat
  rw [Between, ← Int.cast_le (R := ℚ), ← Int.cast_le (R := ℚ)]
  push_cast
  rw [signedUnits_eq, mul_le_mul_iff_of_pos_right hpos, mul_le_mul_iff_of_pos_right hpos]

theorem isBelow_iff_signedRat {s : Bool} {x : Magnitude} {n : Int} :
    (finite s x).isBelow n = true ↔ signedRat s x < n := by
  rw [isBelow, decide_eq_true_iff, ← Int.cast_lt (R := ℚ)]
  push_cast
  rw [signedUnits_eq, mul_lt_mul_iff_of_pos_right Magnitude.perOne_pos_rat]

theorem isAbove_iff_signedRat {s : Bool} {x : Magnitude} {n : Int} :
    (finite s x).isAbove n = true ↔ n < signedRat s x := by
  rw [isAbove, decide_eq_true_iff, ← Int.cast_lt (R := ℚ)]
  push_cast
  rw [signedUnits_eq, mul_lt_mul_iff_of_pos_right Magnitude.perOne_pos_rat]

open Json.Number in
/-- The text of a number between bounds is read as a number between these bounds. -/
theorem exists_reread {layout : Layout} (hlayout : layout.plainFrom ≤ 0 ∧ 4 ≤ layout.plainBelow)
    {lo hi : Int} (hlo : IsBound lo.natAbs) (hhi : IsBound hi.natAbs) (hpos : 0 < hi) {s : Bool}
    {x : Magnitude} (h : (finite s x).Between lo hi) :
    ∃ n g, NumeralText (x.render layout s) n ∧ NumberOf n (.float s g) ∧
      (finite s g).Between lo hi := by
  obtain ⟨n, htext, hs, hn⟩ := Magnitude.exists_shows ⟨hlayout.1, by omega⟩ s x
  have hnumber : ∀ {g}, ofFractional n = .ok (.float n.negative g) → NumberOf n (.float s g) := by
    intro g hg
    exact hs ▸ .float (fun i hi => absurd hi (Json.Grammar.not_isInteger hn.notInteger i)) hg
  have hne := hlo.two_le
  rw [between_iff_signedRat] at h
  cases s with
  | true =>
    rw [signedRat, if_pos rfl] at h
    have hneg : lo ≤ 0 := by
      have : (lo : ℚ) ≤ 0 := h.1.trans (neg_nonpos.2 x.toRat_nonneg)
      exact_mod_cast this
    have hcast : ((lo.natAbs : Nat) : ℚ) = -lo := by
      rw [Nat.cast_natAbs, abs_of_nonpos hneg, Int.cast_neg]
    obtain ⟨g, hg, hle⟩ := hn.ofFractional_le hlayout.2 hlo (by rw [hcast]; linarith)
    refine ⟨n, g, htext, hnumber hg, between_iff_signedRat.2 ?_⟩
    have hhi' : (0 : ℚ) < hi := by exact_mod_cast hpos
    rw [signedRat, if_pos rfl]
    rw [hcast] at hle
    have := g.toRat_nonneg
    constructor <;> linarith
  | false =>
    rw [signedRat, if_neg (by decide)] at h
    have hcast : ((hi.natAbs : Nat) : ℚ) = hi := by rw [Nat.cast_natAbs, abs_of_pos hpos]
    obtain ⟨g, hg, hle⟩ := hn.ofFractional_le hlayout.2 hhi (by rw [hcast]; exact h.2)
    refine ⟨n, g, htext, hnumber hg, between_iff_signedRat.2 ?_⟩
    rw [signedRat, if_neg (by decide)]
    refine ⟨?_, hcast ▸ hle⟩
    rcases Int.lt_or_le 0 lo with hlow | hlow
    · have hcast' : ((lo.natAbs : Nat) : ℚ) = lo := by rw [Nat.cast_natAbs, abs_of_pos hlow]
      have := hn.le_ofFractional hlayout hlo (by rw [hcast']; exact h.1) hhi
        (by rw [hcast]; exact h.2) hg
      rwa [hcast'] at this
    · exact le_trans (by exact_mod_cast hlow) g.toRat_nonneg

end Binary64

end ConfigGate
