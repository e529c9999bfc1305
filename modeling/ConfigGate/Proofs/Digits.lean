import Mathlib
import ConfigGate.Decimal.Numeral

/-!
# Numerals and their values

Reading undoes writing for digits, numerals of fixed width and decimal numerals. A numeral of `w`
digits is the `fixed` of its value, so that values below `b ^ w` and such numerals correspond. A run
of digits in a text is taken whole: `Digits.scan_eq_iff`.
-/

namespace ConfigGate

/-! ### Characters of digits -/

namespace Digit

theorem toNat_char (d : Digit) : d.char.toNat = 48 + d.val := by
  revert d
  decide

@[simp]
theorem ofChar?_char (d : Digit) : ofChar? d.char = some d := by
  revert d
  decide

theorem ofChar?_eq_some_iff {c : Char} {d : Digit} : ofChar? c = some d ↔ c = d.char := by
  constructor
  · intro h
    unfold ofChar? at h
    split at h
    · next hc =>
      obtain rfl := Option.some.inj h
      apply Char.toNat_inj.1
      have hzero : '0'.toNat = 48 := rfl
      rw [hzero] at hc
      simp only [toNat_char, hzero]
      omega
    · cases h
  · rintro rfl
    exact ofChar?_char d

theorem char_ne {c : Char} (d : Digit) (h : ofChar? c = none) : d.char ≠ c := by
  rintro rfl
  simp at h

theorem utf8Size_char (d : Digit) : d.char.utf8Size = 1 := by
  revert d
  decide

theorem char_injective : Function.Injective char := fun d e h => by
  have := ofChar?_char d
  rw [h, ofChar?_char] at this
  exact (Option.some.inj this).symm

end Digit

namespace Nibble

@[simp]
theorem ofChar?_char (d : Nibble) : ofChar? d.char = some d := by
  revert d
  decide

/-- `c` is the character of `n`, in either letter case. -/
def IsSpelled (n : Nibble) (c : Char) : Prop := c = n.char ∨ c = n.upperChar

theorem ofChar?_eq_some_iff {c : Char} {n : Nibble} : ofChar? c = some n ↔ n.IsSpelled c := by
  constructor
  · intro h
    unfold ofChar? at h
    split_ifs at h with hdigit hlower hupper
    · cases h
      refine .inl ?_
      rw [char, if_pos (Nat.sub_lt_left_of_lt_add hdigit.1 hdigit.2), Nat.add_sub_cancel' hdigit.1,
        Char.ofNat_toNat]
    · cases h
      refine .inl ?_
      rw [char, if_neg (by simp), Nat.add_sub_cancel, Nat.add_sub_cancel' hlower.1,
        Char.ofNat_toNat]
    · cases h
      refine .inr ?_
      rw [upperChar, if_neg (by simp), Nat.add_sub_cancel, Nat.add_sub_cancel' hupper.1,
        Char.ofNat_toNat]
  · rintro (rfl | rfl)
    · exact ofChar?_char n
    · revert n
      decide

theorem IsSpelled.utf8Size {n : Nibble} {c : Char} (h : n.IsSpelled c) : c.utf8Size = 1 := by
  rcases h with rfl | rfl
  · revert n
    decide
  · revert n
    decide

end Nibble

/-! ### Values -/

namespace Digits

variable {b : Nat}

@[simp]
theorem value_nil : value ([] : List (Fin b)) = 0 := rfl

theorem value_append_singleton (ds : List (Fin b)) (d : Fin b) :
    value (ds ++ [d]) = b * value ds + d.val := by
  simp [value, List.foldl_append]

theorem value_append (ds es : List (Fin b)) :
    value (ds ++ es) = value ds * b ^ es.length + value es := by
  induction es using List.reverseRecOn with
  | nil => simp
  | append_singleton es e ih =>
    rw [← List.append_assoc, value_append_singleton, value_append_singleton, ih,
      List.length_append, List.length_singleton, pow_succ]
    ring

theorem value_cons (d : Fin b) (ds : List (Fin b)) :
    value (d :: ds) = d.val * b ^ ds.length + value ds := by
  have := value_append [d] ds
  rwa [List.singleton_append, show value [d] = d.val from by simp [value]] at this

theorem value_lt (ds : List (Fin b)) : value ds < b ^ ds.length := by
  induction ds with
  | nil => simp
  | cons d ds ih =>
    rw [value_cons, List.length_cons, pow_succ, mul_comm (b ^ ds.length)]
    have : (d.val + 1) * b ^ ds.length ≤ b * b ^ ds.length := Nat.mul_le_mul_right _ d.isLt
    rw [add_mul, one_mul] at this
    omega

@[simp]
theorem length_fixed (pos : 0 < b) (w n : Nat) : (fixed pos w n).length = w := by
  induction w generalizing n with
  | zero => rfl
  | succ w ih => simp [fixed, ih]

theorem value_fixed (pos : 0 < b) (w n : Nat) : value (fixed pos w n) = n % b ^ w := by
  induction w generalizing n with
  | zero => simp [fixed, Nat.mod_one]
  | succ w ih =>
    rw [fixed, value_append_singleton, ih, pow_succ, mul_comm (b ^ w) b, Nat.mod_mul]
    rw [last, add_comm]

/-- A numeral is written back from its value and its length. -/
theorem fixed_value (pos : 0 < b) (ds : List (Fin b)) : fixed pos ds.length (value ds) = ds := by
  induction ds using List.reverseRecOn with
  | nil => rfl
  | append_singleton ds d ih =>
    rw [List.length_append, List.length_singleton, fixed, value_append_singleton]
    have hdiv : (b * value ds + d.val) / b = value ds := by
      rw [Nat.mul_add_div pos, Nat.div_eq_of_lt d.isLt, add_zero]
    have hlast : last pos (b * value ds + d.val) = d := by
      apply Fin.ext
      show (b * value ds + d.val) % b = d.val
      rw [Nat.mul_add_mod, Nat.mod_eq_of_lt d.isLt]
    rw [hdiv, ih, hlast]

/-! ### Decimal numerals -/

theorem value_decimal (n : Nat) : value (decimal n) = n := by
  induction n using Nat.strong_induction_on with
  | _ n ih =>
    rw [decimal]
    split
    · next h => simp [value, last, Nat.mod_eq_of_lt h]
    · next h =>
      rw [value_append_singleton, ih (n / 10) (by omega), last]
      exact Nat.div_add_mod n 10

theorem decimal_ne_nil (n : Nat) : decimal n ≠ [] := by
  rw [decimal]
  split <;> simp

/-- Only zero starts with a zero. -/
theorem decimal_head (n : Nat) (h : (decimal n).head? = some Digit.zero) : n = 0 := by
  induction n using Nat.strong_induction_on with
  | _ n ih =>
    rw [decimal] at h
    split at h
    · next hn =>
      have := congrArg Fin.val (Option.some.inj h)
      simp only [last, Digit.zero, Nat.mod_eq_of_lt hn] at this
      exact this
    · next hn =>
      rw [List.head?_append_of_ne_nil _ (decimal_ne_nil _)] at h
      have := ih (n / 10) (by omega) h
      omega

theorem length_decimal_le {n w : Nat} (hw : 0 < w) (h : n < 10 ^ w) : (decimal n).length ≤ w := by
  induction w generalizing n with
  | zero => exact absurd hw (lt_irrefl 0)
  | succ w ih =>
    rw [decimal]
    split
    · simp
    · next hn =>
      have hw' : 0 < w := by
        rcases Nat.eq_zero_or_pos w with rfl | hw'
        · rw [zero_add, pow_one] at h; exact absurd h hn
        · exact hw'
      have hlt : n / 10 < 10 ^ w := by
        rw [pow_succ] at h
        exact Nat.div_lt_of_lt_mul (by rwa [mul_comm] at h)
      simpa using ih hw' hlt

theorem value_zeros {ds : List (Fin b)} (h : ∀ d ∈ ds, d.val = 0) : value ds = 0 := by
  induction ds with
  | nil => rfl
  | cons d ds ih =>
    rw [value_cons, h d (by simp), ih fun e he => h e (by simp [he]), Nat.zero_mul]

@[simp]
theorem value_replicate_zero (k : Nat) : value (List.replicate k Digit.zero) = 0 :=
  value_zeros fun d hd => by rw [List.eq_of_mem_replicate hd, Digit.zero]

theorem dropZeros_append (ds : List (Fin b)) :
    ∃ zeros, ds = dropZeros ds ++ zeros ∧ ∀ d ∈ zeros, d.val = 0 := by
  refine ⟨(ds.reverse.takeWhile (·.val = 0)).reverse, ?_, fun d hd => ?_⟩
  · rw [dropZeros, ← List.reverse_append, List.takeWhile_append_dropWhile, List.reverse_reverse]
  · simpa using List.mem_takeWhile_imp (List.mem_reverse.1 hd)

/-- A numeral that does not begin with zero has the size that its length says. -/
theorem pow_le_value {d : Digit} {ds : List Digit} (h : d ≠ Digit.zero) :
    10 ^ ds.length ≤ value (d :: ds) := by
  have hd : 1 ≤ d.val := Nat.one_le_iff_ne_zero.2 fun h0 => h (Fin.ext h0)
  rw [value_cons]
  exact (Nat.le_mul_of_pos_left _ hd).trans (Nat.le_add_right _ _)

/-! ### Runs of digits -/

/-- A text that does not go on with a digit. -/
def Stop (s : List Char) : Prop := ∀ c ∈ s.head?, Digit.ofChar? c = none

@[simp]
theorem stop_nil : Stop [] := by simp [Stop]

@[simp]
theorem stop_cons {c : Char} {s : List Char} : Stop (c :: s) ↔ Digit.ofChar? c = none := by
  simp [Stop]

/-- The digits that are scanned are those up to the first character that is none. -/
theorem scan_eq_iff {s rest : List Char} {ds : List Digit} :
    scan s = (ds, rest) ↔ s = ds.map Digit.char ++ rest ∧ Stop rest := by
  induction s generalizing ds rest with
  | nil =>
    simp only [scan, Prod.mk.injEq]
    constructor
    · rintro ⟨rfl, rfl⟩
      exact ⟨rfl, stop_nil⟩
    · rintro ⟨h, -⟩
      obtain ⟨h₁, h₂⟩ := List.append_eq_nil_iff.1 h.symm
      exact ⟨(List.map_eq_nil_iff.1 h₁).symm, h₂.symm⟩
  | cons c s ih =>
    rw [scan]
    cases hc : Digit.ofChar? c with
    | none =>
      simp only [Prod.mk.injEq]
      constructor
      · rintro ⟨rfl, rfl⟩
        exact ⟨rfl, stop_cons.2 hc⟩
      · rintro ⟨h, -⟩
        cases ds with
        | nil => exact ⟨rfl, h⟩
        | cons d ds =>
          obtain ⟨rfl, -⟩ := List.cons.inj h
          simp at hc
    | some d =>
      obtain rfl := Digit.ofChar?_eq_some_iff.1 hc
      simp only [Prod.mk.injEq]
      constructor
      · rintro ⟨rfl, rfl⟩
        obtain ⟨h, hstop⟩ := ih.1 (Prod.mk.eta (p := scan s)).symm
        exact ⟨by rw [List.map_cons, List.cons_append, ← h], hstop⟩
      · rintro ⟨h, hstop⟩
        cases ds with
        | nil =>
          rw [List.map_nil, List.nil_append] at h
          rw [← h, stop_cons, hc] at hstop
          cases hstop
        | cons e ds =>
          obtain ⟨he, h⟩ := List.cons.inj h
          rw [ih.2 ⟨h, hstop⟩, Digit.char_injective he]
          exact ⟨rfl, rfl⟩

theorem scan_append {s : List Char} (ds : List Digit) (h : Stop s) :
    scan (ds.map Digit.char ++ s) = (ds, s) :=
  scan_eq_iff.2 ⟨rfl, h⟩

end Digits

/-- The digits of a padded number. -/
def Digits.padded (w n : Nat) : List Digit :=
  List.replicate (w - (decimal n).length) Digit.zero ++ decimal n

theorem paddedText_eq (w n : Nat) : paddedText w n = (Digits.padded w n).map Digit.char := by
  rw [paddedText, Digits.padded, decimalText, List.map_append, List.map_replicate]
  rfl

namespace Digits

@[simp]
theorem value_padded (w n : Nat) : value (padded w n) = n := by
  rw [padded, value_append, value_replicate_zero, value_decimal, Nat.zero_mul, Nat.zero_add]

theorem padded_ne_nil (w n : Nat) : padded w n ≠ [] := by
  simp [padded, decimal_ne_nil]

theorem length_padded {w n : Nat} (hw : 0 < w) (h : n < 10 ^ w) : (padded w n).length = w := by
  have := length_decimal_le hw h
  rw [padded, List.length_append, List.length_replicate]
  omega

end Digits

/-- The number that a numeral stands for, without its sign. -/
def Numeral.toRat (n : Numeral) : ℚ := n.coefficient * 10 ^ n.power

theorem Numeral.toRat_nonneg (n : Numeral) : 0 ≤ n.toRat := by
  unfold Numeral.toRat
  positivity

end ConfigGate
