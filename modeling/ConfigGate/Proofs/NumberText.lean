import Mathlib
import ConfigGate.Proofs.Agreement
import ConfigGate.Proofs.Decimal.NumericGrammar

/-!
# Numbers in strings

A string is taken for a number after the blanks at both ends. What is left has to be a numeric text,
and the number that it stands for has to lie between the bounds (`Coercion.outcome_string`). The
bounds are binary64 numbers, so that rounding does not lead past them: a text whose exact value lies
between them is accepted.
-/

namespace ConfigGate

/-! ### Bounds -/

namespace Binary64

/-- `x < q`, which is not true of `nan`. -/
def IsLess (q : ℚ) : Binary64 → Prop
  | finite s x => signedRat s x < q
  | infinite s => s = true
  | nan => False

/-- `q < x`, which is not true of `nan`. -/
def IsGreater (q : ℚ) : Binary64 → Prop
  | finite s x => q < signedRat s x
  | infinite s => s = false
  | nan => False

theorem isBelow_iff {x : Binary64} {n : Int} : x.isBelow n = true ↔ x.IsLess n := by
  cases x with
  | finite s x => exact isBelow_iff_signedRat
  | infinite s => rfl
  | nan => simp [isBelow, IsLess]

theorem isAbove_iff {x : Binary64} {n : Int} : x.isAbove n = true ↔ x.IsGreater n := by
  cases x with
  | finite s x => exact isAbove_iff_signedRat
  | infinite s => cases s <;> simp [isAbove, IsGreater]
  | nan => simp [isAbove, IsGreater]

theorem isNaN_iff {x : Binary64} : x.isNaN = true ↔ x = nan := by
  cases x <;> simp [isNaN]

variable {x : Binary64} {ge le : Int32}

/-- What the bounds make of a number, one case after the other. -/
theorem ranged_iff :
    (x.ranged ge le = .error .greaterThanEqual ↔ x = nan ∨ x.IsLess ge.toInt) ∧
    (x.ranged ge le = .error .lessThanEqual ↔
      ¬ (x = nan ∨ x.IsLess ge.toInt) ∧ x.IsGreater le.toInt) ∧
    (x.ranged ge le = .ok x ↔ ¬ (x = nan ∨ x.IsLess ge.toInt) ∧ ¬ x.IsGreater le.toInt) := by
  rw [← isNaN_iff, ← isBelow_iff, ← isAbove_iff, ← Bool.or_eq_true, ranged]
  by_cases hge : (x.isNaN || x.isBelow ge.toInt) = true
  · simp [hge]
  · by_cases hle : x.isAbove le.toInt = true
    · simp [hge, hle]
    · simp [hge, hle]

end Binary64

theorem Binary64.exists_signedRat (b : Int32) : ∃ s x, signedRat s x = b.toInt := by
  have hlow : -2147483648 ≤ b.toInt := b.minValue_le_toInt
  have hhigh : b.toInt ≤ 2147483647 := b.toInt_le
  obtain ⟨x, hx⟩ := Magnitude.exists_toRat_nat (n := b.toInt.natAbs) (by omega)
  rw [Nat.cast_natAbs, Int.cast_abs] at hx
  rcases lt_or_ge b.toInt 0 with hneg | hpos
  · refine ⟨true, x, ?_⟩
    rw [signedRat_true, hx, abs_of_neg (Int.cast_lt_zero.2 hneg), neg_neg]
  · refine ⟨false, x, ?_⟩
    rw [signedRat_false, hx, abs_of_nonneg (Int.cast_nonneg hpos)]

/-- A numeral between two bounds is rounded to a number between them. -/
theorem Numeral.ranged_of_between {n : Numeral} {r : Option Magnitude}
    (hr : Magnitude.Rounds n.toRat r) {ge le : Int32} (hge : ge.toInt ≤ n.signedRat)
    (hle : n.signedRat ≤ le.toInt) :
    (Binary64.ofMagnitude? n.negative r).ranged ge le = .ok (.ofMagnitude? n.negative r) := by
  -- The bounds are binary64 numbers, and rounding keeps the order.
  obtain ⟨s, lo, hlo⟩ := Binary64.exists_signedRat ge
  obtain ⟨s', hi, hhi⟩ := Binary64.exists_signedRat le
  rw [← hlo] at hge
  rw [← hhi] at hle
  have hq := n.toRat_nonneg
  obtain ⟨x, rfl⟩ : ∃ x, r = some x := by
    have hlow := neg_abs_le (Binary64.signedRat s lo)
    have hhigh := le_abs_self (Binary64.signedRat s' hi)
    rw [Binary64.abs_signedRat] at hlow hhigh
    unfold Numeral.signedRat at hge hle
    cases hn : n.negative with
    | true =>
      rw [hn, if_pos rfl] at hge
      obtain ⟨x, hx, -⟩ := hr.le (y := lo) (by linarith)
      exact ⟨x, hx⟩
    | false =>
      rw [hn, if_neg Bool.false_ne_true] at hle
      obtain ⟨x, hx, -⟩ := hr.le (y := hi) (by linarith)
      exact ⟨x, hx⟩
  have hlow : Binary64.signedRat s lo ≤ Binary64.signedRat n.negative x :=
    lo.rounds_self.signed_mono hr lo.toRat_nonneg hq hge
  have hhigh : Binary64.signedRat n.negative x ≤ Binary64.signedRat s' hi :=
    hr.signed_mono hi.rounds_self hq hi.toRat_nonneg hle
  rw [hlo] at hlow
  rw [hhi] at hhigh
  rw [Binary64.ranged_iff.2.2]
  refine ⟨?_, not_lt.2 hhigh⟩
  rintro (h | h)
  · cases h
  · exact absurd h (not_lt.2 hlow)

/-! ### Strings -/

namespace Coercion

theorem outcome_of_read?_eq_none {field : String} {s : String} {t : List Char}
    (h : Text.Strips s.toList t) (ht : NumericText.read? t = none) (ge le : Int32) :
    outcome field (.string s) ge le = .error .numberParsing := by
  rw [outcome, number, readNumber, Text.strips_iff.1 h, ht]
  rfl

theorem ranged_ne_numberParsing (x : Binary64) (ge le : Int32) :
    x.ranged ge le ≠ .error .numberParsing := by
  unfold Binary64.ranged
  split_ifs <;> simp

/-- What becomes of a string. It is no number exactly if it is not in the grammar once the blanks at
both ends are off, and otherwise the bounds decide on the number that it stands for. -/
theorem outcome_string (field : String) (ge le : Int32) {s : String} {t : List Char}
    (hs : Text.byteCount s.toList < 60000) (ht : Text.Strips s.toList t) :
    (outcome field (.string s) ge le = .error .numberParsing ↔ ¬ NumericText.IsNumeric t) ∧
    (NumericText.IsNumeric t → ∃ x, NumericText.Means t x) ∧
    (∀ x, NumericText.Means t x →
      (outcome field (.string s) ge le = .error .greaterThanEqual ↔
        x = .nan ∨ x.IsLess ge.toInt) ∧
      (outcome field (.string s) ge le = .error .lessThanEqual ↔
        ¬ (x = .nan ∨ x.IsLess ge.toInt) ∧ x.IsGreater le.toInt) ∧
      (outcome field (.string s) ge le = .ok x ↔
        ¬ (x = .nan ∨ x.IsLess ge.toInt) ∧ ¬ x.IsGreater le.toInt)) ∧
    ∀ n, NumericText.Written t n → ge.toInt ≤ n.signedRat → n.signedRat ≤ le.toInt →
      ∃ x, outcome field (.string s) ge le = .ok x := by
  have hlength : t.length < 60000 :=
    (ht.length_le.trans (Text.length_le_byteCount _)).trans_lt hs
  have hranged : ∀ x, NumericText.Means t x →
      outcome field (.string s) ge le = x.ranged ge le := fun x hx =>
    outcome_of_readNumber (readNumber_string ht (NumericText.read?_of_means hlength hx)) ge le
  refine ⟨⟨fun h hnumeric => ?_, fun h => ?_⟩, NumericText.IsNumeric.exists_means, fun x hx => ?_,
    fun n hn hge hle => ?_⟩
  · obtain ⟨x, hx⟩ := hnumeric.exists_means
    exact ranged_ne_numberParsing x ge le ((hranged x hx).symm.trans h)
  · exact outcome_of_read?_eq_none ht (NumericText.read?_eq_none_iff.2 h) ge le
  · rw [hranged x hx]
    exact Binary64.ranged_iff
  · obtain ⟨r, hr⟩ := Magnitude.exists_rounds n.toRat_nonneg
    exact ⟨_, (hranged _ (.numeral hn hr.isNearest)).trans (Numeral.ranged_of_between hr hge hle)⟩

/-- A point without digits before it, an exponent, and blanks of two kinds. -/
theorem outcome_string_padded :
    ∃ x, outcome "temperature" (.string "\u3000+.5e1\t") (-50) 150 = .ok x := by
  let n : Numeral := ⟨false, [], [5], some ⟨false, [1]⟩⟩
  have hs : "\u3000+.5e1\t".toList = ['\u3000'] ++ (['+', '.', '5', 'e', '1'] ++ ['\t']) := rfl
  have ht : Text.Strips "\u3000+.5e1\t".toList ['+', '.', '5', 'e', '1'] := by
    refine ⟨⟨['\u3000'], ['\t'], hs, ?_, ?_⟩, ?_, ?_⟩ <;> intro c hc <;> simp at hc <;> subst hc <;>
      rfl
  have hn : NumericText.Written ['+', '.', '5', 'e', '1'] n :=
    @NumericText.Written.mk ['+'] ['.', '5'] ['e', '1'] false [] [5] n.exponent .plus
      (.fraction (List.cons_ne_nil 5 []))
      (@Json.Grammar.ExponentText.digits 'e' [] false [1] (.inl rfl) .absent
        (List.cons_ne_nil 1 []))
  have hq : n.signedRat = 5 := by
    have hc : n.coefficient = 5 := rfl
    have hp : n.power = 0 := rfl
    rw [Numeral.signedRat, if_neg Bool.false_ne_true, Numeral.toRat, hc, hp]
    norm_num
  have hlength : Text.byteCount "\u3000+.5e1\t".toList < 60000 := by
    rw [hs]
    decide
  have hge : (-50 : Int32).toInt = -50 := rfl
  have hle : (150 : Int32).toInt = 150 := rfl
  refine (outcome_string "temperature" (-50) 150 hlength ht).2.2.2 n hn ?_ ?_
  · rw [hq, hge]
    norm_num
  · rw [hq, hle]
    norm_num

end Coercion

end ConfigGate
