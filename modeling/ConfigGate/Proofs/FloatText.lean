import Mathlib
import ConfigGate.Proofs.Decimal.Fewest
import ConfigGate.Proofs.Decimal.NumericGrammar
import ConfigGate.Proofs.Json.Write
import ConfigGate.Proofs.Range

/-!
# Floats as text

In a verdict a float is written with the fewest digits that are rounded to it. If the power of ten
of the first is from -4 to 15 they stand around a point, and otherwise behind the digits there is an
exponent with a sign and at least two digits (`Magnitude.render_layout`). In either layout the text
is a numeral that stands for the decimal that was chosen, and this is rounded to the float. So the
text tells floats apart, zeros of either sign included, and as a string it is taken for the float
again (`Magnitude.render_identifies`).
-/

namespace ConfigGate

open Json.Grammar (IsWhole FractionText ExponentText ExponentSign NumeralText)

/-! ### Filled up digits -/

namespace Digits

theorem le_length_padded (w n : Nat) : w ≤ (padded w n).length := by
  rw [padded, List.length_append, List.length_replicate]
  omega

/-- Zeros are written up to the width and no further. -/
theorem length_padded_of_head {w n : Nat} (hw : 0 < w)
    (h : (padded w n).head? = some Digit.zero) : (padded w n).length = w := by
  rw [padded, List.length_append, List.length_replicate]
  rcases Nat.le_total (decimal n).length w with hle | hle
  · omega
  · rw [padded, Nat.sub_eq_zero_of_le hle, List.replicate_zero, List.nil_append] at h
    obtain rfl := decimal_head n h
    have := length_decimal_le (n := 0) (w := 1) (by decide) (by decide)
    omega

end Digits

/-! ### Layouts -/

/-- `t` is a numeral that stands for `q`. -/
def StandsFor (t : List Char) (q : ℚ) : Prop := ∃ n, NumeralText t n ∧ n.signedRat = q

theorem StandsFor.iff {t : List Char} {q r : ℚ} (h : StandsFor t q) : StandsFor t r ↔ r = q := by
  obtain ⟨n, hn, rfl⟩ := h
  constructor
  · rintro ⟨m, hm, rfl⟩
    rw [hm.unique hn]
  · rintro rfl
    exact ⟨n, hn, rfl⟩

namespace Scientific

variable {d : Scientific} {t : List Char} {n : Numeral} {negative : Bool}

/-- Digits on both sides of a point, before it with no zero in front of others. -/
inductive IsPositional : List Char → Prop where
  | mk {whole fraction : List Digit} (hw : IsWhole whole) (hf : fraction ≠ []) :
      IsPositional (whole.map Digit.char ++ '.' :: fraction.map Digit.char)

/-- The first digit, a point and the others if there are any, and an exponent with its sign and two
digits, or more if it takes more. -/
inductive IsExponential : Scientific → List Char → Prop where
  | mk {first : Digit} {rest digits : List Digit} {point : List Char} {e : Int}
      (hp : FractionText point rest) (hv : Digits.value digits = e.natAbs)
      (hl : 2 ≤ digits.length) (hz : digits.head? = some Digit.zero → digits.length = 2) :
      IsExponential ⟨first :: rest, e⟩ (first.char :: (point ++
        'e' :: (if e < 0 then '-' else '+') :: digits.map Digit.char))

theorem IsPositional.not_mem (h : IsPositional t) : 'e' ∉ t := by
  obtain ⟨-, -⟩ := h
  have hdigits : ∀ ds : List Digit, 'e' ∉ ds.map Digit.char := by
    intro ds he
    obtain ⟨d, -, hd⟩ := List.mem_map.1 he
    exact d.char_ne (by decide) hd
  rw [List.mem_append, List.mem_cons]
  rintro (h | h | h)
  · exact hdigits _ h
  · cases h
  · exact hdigits _ h

theorem IsExponential.mem (h : IsExponential d t) : 'e' ∈ t := by
  obtain ⟨-, -, -, -⟩ := h
  simp

theorem IsNormal.isPositional (h : d.IsNormal) : IsPositional d.positional := by
  -- A layout in which nothing else is positional.
  let layout : Layout := ⟨d.exponent, d.exponent + 1, false, 0, .up⟩
  obtain ⟨n, htext, hneg, -, hinteger, hexponent⟩ := @spells_positional d layout h false
  rw [if_neg Bool.false_ne_true, List.nil_append] at htext
  generalize d.positional = t at htext ⊢
  have hnone : n.exponent = none := by
    rw [Option.eq_none_iff_forall_ne_some]
    exact fun e he => (hexponent e he).2 ⟨le_rfl, Int.lt_succ _⟩
  obtain ⟨negative, hw, hf, he⟩ := htext
  obtain rfl : negative = false := hneg
  obtain rfl := hnone
  cases he
  cases hf with
  | absent => exact absurd ⟨rfl, rfl⟩ hinteger
  | digits hf =>
    rw [if_neg Bool.false_ne_true, List.nil_append, List.append_nil]
    exact .mk hw hf

theorem IsNormal.isExponential (h : d.IsNormal) :
    IsExponential d (d.mantissa ++ ['e'] ++ exponentText Verdict.style.float d.exponent) := by
  obtain ⟨first, rest, hd, -⟩ := h.head
  obtain ⟨digits, e⟩ := d
  obtain rfl : digits = first :: rest := hd
  dsimp only
  have hexponent : exponentText Verdict.style.float e =
      (if e < 0 then '-' else '+') :: (Digits.padded 2 e.natAbs).map Digit.char := by
    rw [exponentText, paddedText_eq]
    split <;> rfl
  obtain ⟨point, hp, hmantissa⟩ : ∃ point, FractionText point rest ∧
      mantissa ⟨first :: rest, e⟩ = first.char :: point := by
    cases rest with
    | nil => exact ⟨[], .absent, rfl⟩
    | cons r rest => exact ⟨_, .digits (List.cons_ne_nil r rest), rfl⟩
  rw [hexponent, hmantissa, List.append_assoc, List.cons_append]
  exact .mk hp (Digits.value_padded _ _) (Digits.le_length_padded _ _)
    (Digits.length_padded_of_head (by decide))

/-- The power of ten that is written: none, or the exponent. -/
theorem IsPositional.writtenPower (h : IsPositional t)
    (hn : NumeralText ((if negative then ['-'] else []) ++ t) n) : n.writtenPower = 0 := by
  obtain ⟨hw, hf⟩ := h
  have hmk := NumeralText.mk negative hw (.digits hf) .absent
  rw [List.append_nil] at hmk
  rw [hn.unique hmk]
  rfl

theorem IsExponential.writtenPower (h : IsExponential d t)
    (hn : NumeralText ((if negative then ['-'] else []) ++ t) n) : n.writtenPower = d.exponent := by
  obtain @⟨first, rest, digits, point, e, hp, hv, hl, -⟩ := h
  have hw : IsWhole [first] := ⟨List.cons_ne_nil _ _, fun _ => rfl⟩
  have hne : digits ≠ [] := by
    rintro rfl
    cases hl
  obtain ⟨sign, hsign, htext⟩ : ∃ sign, ExponentSign sign (decide (e < 0)) ∧
      (if e < 0 then '-' else '+') :: digits.map Digit.char = sign ++ digits.map Digit.char := by
    by_cases he : e < 0
    · rw [if_pos he, decide_eq_true he]
      exact ⟨['-'], .minus, rfl⟩
    · rw [if_neg he, decide_eq_false he]
      exact ⟨['+'], .plus, rfl⟩
  rw [htext] at hn
  have hmk := NumeralText.mk negative hw hp (.digits (.inl rfl) hsign hne)
  rw [hn.unique hmk]
  simp only [Numeral.writtenPower, Exponent.signed, hv, decide_eq_true_eq]
  split <;> omega

/-- The number that a decimal with a sign stands for. -/
def signedRat (negative : Bool) (d : Scientific) : ℚ := if negative then -d.toRat else d.toRat

theorem Spells.standsFor {layout : Layout} (h : Spells layout negative d t n) :
    StandsFor t (d.signedRat negative) :=
  ⟨n, h.text, by rw [Numeral.signedRat, h.negative, h.toRat, signedRat]⟩

/-- The text with no width and no plus sign for the exponent, and never positional. -/
theorem standsFor_scientific (h : d.IsNormal) (negative : Bool) :
    StandsFor ((if negative then ['-'] else []) ++ (d.mantissa ++ 'e' :: integerText d.exponent))
      (d.signedRat negative) := by
  let layout : Layout := ⟨0, 0, false, 1, .up⟩
  have hexponent : exponentText layout d.exponent = integerText d.exponent := by
    have hlength := List.length_pos_iff.2 (Digits.decimal_ne_nil d.exponent.natAbs)
    have hfill : 1 - (Digits.decimal d.exponent.natAbs).length = 0 := by omega
    rw [exponentText, paddedText, hfill, List.replicate_zero, List.nil_append, integerText]
    split <;> rfl
  have hplain : ¬ (layout.plainFrom ≤ d.exponent ∧ d.exponent < layout.plainBelow) := fun h =>
    absurd (h.1.trans_lt h.2) (lt_irrefl _)
  obtain ⟨n, hn⟩ := spells_exponent h negative hplain
  rw [hexponent, List.append_assoc, List.singleton_append] at hn
  exact hn.standsFor

end Scientific

namespace Magnitude

open Scientific (IsPositional IsExponential)

variable {x : Magnitude} {d : Scientific}

theorem IsShortest.exponent_le (h : x.IsShortest d) (hx : x.isZero = false) :
    d.exponent.natAbs ≤ 400 := by
  have hr := (rounds_iff_isNearest d.toRat_nonneg).2 h.rounds
  obtain ⟨hlow, hhigh⟩ := h.normal.bounds
  by_contra hlt
  rcases Int.lt_or_le 0 d.exponent with hpos | hneg
  · -- Out of range.
    have hover := (overflow_le_pow (by omega)).trans hlow
    cases hr.eq_none_iff.2 hover
  · have hzero := rounds_zero_of_le_pow d.toRat_nonneg (by omega) hhigh.le
    obtain rfl := Option.some.inj (hr.unique hzero)
    cases hx

theorem render_cases (negative : Bool) (x : Magnitude) :
    ∃ body, x.render Verdict.style.float negative = (if negative then ['-'] else []) ++ body ∧
      (IsPositional body ∨ ∃ d, IsExponential d body ∧ d.exponent.natAbs ≤ 400) := by
  refine ⟨_, rfl, ?_⟩
  split
  · have hw : IsWhole [Digit.zero] := ⟨List.cons_ne_nil _ _, fun _ => rfl⟩
    exact .inl (IsPositional.mk hw (List.cons_ne_nil Digit.zero []))
  · next hx =>
    rw [Bool.not_eq_true] at hx
    have hshortest := isShortest_ofMagnitude Verdict.style.float.tie hx
    rw [Scientific.render]
    split
    · exact .inl hshortest.normal.isPositional
    · exact .inr ⟨_, hshortest.normal.isExponential, hshortest.exponent_le hx⟩

/-- A float that is not zero is laid out by the power of ten of the first of its digits. The text
stands for the decimal `d` with the sign of the float, as the digits with a plain exponent do. -/
theorem render_layout (negative : Bool) {x : Magnitude} (hx : x.isZero = false) :
    ∃ d body, x.IsShortest d ∧
      x.render Verdict.style.float negative = (if negative then ['-'] else []) ++ body ∧
      (IsPositional body ↔ -4 ≤ d.exponent ∧ d.exponent ≤ 15) ∧
      (IsExponential d body ↔ ¬ (-4 ≤ d.exponent ∧ d.exponent ≤ 15)) ∧
      (∀ q, StandsFor (x.render Verdict.style.float negative) q ↔ q = d.signedRat negative) ∧
      ∀ q, StandsFor ((if negative then ['-'] else []) ++
        (d.mantissa ++ 'e' :: integerText d.exponent)) q ↔ q = d.signedRat negative := by
  have hshortest := isShortest_ofMagnitude Verdict.style.float.tie hx
  have hrender : x.render Verdict.style.float negative = (if negative then ['-'] else []) ++
      (Scientific.ofMagnitude Verdict.style.float.tie x).render Verdict.style.float := by
    rw [render, hx, if_neg Bool.false_ne_true]
  generalize Scientific.ofMagnitude Verdict.style.float.tie x = d at hshortest hrender
  have hnormal := hshortest.normal
  obtain ⟨n, hn⟩ := Scientific.exists_spells hnormal Verdict.style.float negative
  have hplain : Verdict.style.float.plainFrom ≤ d.exponent ∧
      d.exponent < Verdict.style.float.plainBelow ↔ -4 ≤ d.exponent ∧ d.exponent ≤ 15 :=
    and_congr Iff.rfl (Int.lt_add_one_iff (b := 15))
  refine ⟨d, d.render Verdict.style.float, hshortest, hrender, ?_, ?_, fun q => ?_, fun q =>
    (Scientific.standsFor_scientific hnormal negative).iff⟩
  · rw [Scientific.render, ← hplain]
    split
    · next h => exact iff_of_true hnormal.isPositional h
    · next h => exact iff_of_false (fun hp => hp.not_mem hnormal.isExponential.mem) h
  · rw [Scientific.render, ← hplain]
    split
    · next h => exact iff_of_false (fun he => hnormal.isPositional.not_mem he.mem) (not_not.2 h)
    · next h => exact iff_of_true hnormal.isExponential h
  · rw [hrender]
    exact hn.standsFor.iff

/-- The least float above zero. -/
theorem render_layout_least :
    ∃ d body, (⟨1, by decide⟩ : Magnitude).IsShortest d ∧
      (⟨1, by decide⟩ : Magnitude).render Verdict.style.float true = '-' :: body ∧
      StandsFor ('-' :: body) (-d.toRat) := by
  obtain ⟨d, body, hd, hrender, -, -, hq, -⟩ :=
    render_layout true (x := ⟨1, by decide⟩) (by decide)
  refine ⟨d, body, hd, hrender, ?_⟩
  have hstands := (hq _).2 rfl
  rwa [hrender, Scientific.signedRat, if_pos rfl] at hstands

/-! ### Reading back -/

theorem exists_render_numeral (negative : Bool) (x : Magnitude) :
    ∃ n, NumeralText (x.render Verdict.style.float negative) n ∧ n.negative = negative ∧
      Rounds n.toRat (some x) ∧ ¬ (n.fraction = [] ∧ n.exponent = none) ∧
      n.writtenPower.natAbs < 0x10000 := by
  have hlayout : Verdict.style.float.plainFrom ≤ 0 ∧ 0 ≤ Verdict.style.float.plainBelow := by
    decide
  obtain ⟨n, hn, hneg, hshows⟩ := exists_shows hlayout negative x
  refine ⟨n, hn, hneg, hshows.rounds, hshows.notInteger, ?_⟩
  obtain ⟨body, hrender, hbody⟩ := render_cases negative x
  rw [hrender] at hn
  rcases hbody with hp | ⟨d, he, hd⟩
  · rw [hp.writtenPower hn]
    decide
  · rw [he.writtenPower hn]
    omega

theorem means_render_iff (negative : Bool) (x : Magnitude) {y : Binary64} :
    NumericText.Means (x.render Verdict.style.float negative) y ↔ y = .finite negative x := by
  obtain ⟨n, hn, rfl, hr, -, hw⟩ := exists_render_numeral negative x
  constructor
  · rintro (⟨hwritten, hr'⟩ | h)
    · obtain rfl := hwritten.unique (NumericText.written_of_numeralText hn)
      rw [hr'.unique hr.isNearest]
      rfl
    · have hread := NumericText.read?_of_named h
      rw [NumericText.read?_of_written (NumericText.written_of_numeralText hn),
        NumericText.nearest_of_rounds hw hr] at hread
      exact (Option.some.inj hread).symm
  · rintro rfl
    exact .numeral (NumericText.written_of_numeralText hn) hr.isNearest

/-- The text of a float belongs to it alone, and read as a string it is the float. -/
theorem render_identifies (negative : Bool) (x : Magnitude) :
    (∀ y, NumericText.Means (x.render Verdict.style.float negative) y ↔
      y = .finite negative x) ∧
    (∀ s y, y.render Verdict.style.float s = x.render Verdict.style.float negative ↔
      s = negative ∧ y = x) ∧
    (∀ i, integerText i ≠ x.render Verdict.style.float negative) ∧
    ∀ field ge le y,
      Coercion.number field (.string (.ofList (x.render Verdict.style.float negative))) ge le =
          .ok y ↔
        y = .finite negative x ∧ ge.toInt ≤ Binary64.signedRat negative x ∧
          Binary64.signedRat negative x ≤ le.toInt := by
  obtain ⟨n, hn, hneg, hr, hinteger, hw⟩ := exists_render_numeral negative x
  refine ⟨fun y => means_render_iff negative x, fun s y => ⟨fun h => ?_, ?_⟩, fun i hi => ?_,
    fun field ge le y => ?_⟩
  · have hy := (means_render_iff s y).2 rfl
    rw [h, means_render_iff] at hy
    exact Binary64.finite.inj hy
  · rintro ⟨rfl, rfl⟩
    rfl
  · rw [← hi] at hn
    rw [hn.unique (Json.Write.numeralText_integerText i)] at hinteger
    exact hinteger ⟨rfl, rfl⟩
  · rw [Coercion.number_eq_ok_iff, Coercion.readNumber_text field hn,
      NumericText.nearest_of_rounds hw hr, hneg, Except.ok.injEq]
    constructor
    · rintro ⟨rfl, h⟩
      exact ⟨rfl, Binary64.between_iff_signedRat.1 h⟩
    · rintro ⟨rfl, h⟩
      exact ⟨rfl, Binary64.between_iff_signedRat.2 h⟩

/-- Of the zeros too the text has the sign. -/
theorem render_identifies_negative_zero :
    Coercion.number "temperature" (.string (.ofList ['-', '0', '.', '0'])) (-50) 150 =
      .ok (.finite true zero) := by
  have hge : (-50 : Int32).toInt = -50 := rfl
  have hle : (150 : Int32).toInt = 150 := rfl
  refine ((render_identifies true zero).2.2.2 "temperature" (-50) 150 _).2 ⟨rfl, ?_⟩
  rw [hge, hle, Binary64.signedRat, if_pos rfl, toRat_zero]
  norm_num

end Magnitude

end ConfigGate
