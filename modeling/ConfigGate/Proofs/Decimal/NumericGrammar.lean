import Mathlib
import ConfigGate.Coercion
import ConfigGate.Proofs.Binary64.Nearest
import ConfigGate.Proofs.Digits
import ConfigGate.Proofs.Json.Grammar
import ConfigGate.Proofs.Text
import ConfigGate.Proofs.UuidSpelling

/-!
# The grammar of numeric texts

A numeric text is a numeral or a name, behind an optional sign. `Written t n` and `Named t x` are
its productions, and `Means t x` says which number it stands for: the one nearest to the value of
the numeral. Reading takes the numeric texts and no others (`read?_eq_none_iff`). An exponent is not
read to its end, and yet a text of fewer than 60000 characters is read as what it means
(`read?_of_means`): where digits of the exponent are left out, the rest of the text is too short to
make up for the power of ten, with or without them. The text of a JSON numeral is a numeric text,
without blanks around it (`Coercion.readNumber_text`).
-/

namespace ConfigGate

/-! ### Characters of numerals -/

namespace Json.Grammar

variable {P : Char → Prop}

theorem forall_mem_digits (digit : ∀ d : Digit, P d.char) (ds : List Digit) :
    ∀ c ∈ ds.map Digit.char, P c :=
  List.forall_mem_map.2 fun d _ => digit d

theorem FractionText.forall_mem {t : List Char} {ds : List Digit} (h : FractionText t ds)
    (digit : ∀ d : Digit, P d.char) (mark : ∀ c ∈ ['-', '+', '.', 'e', 'E'], P c) :
    ∀ c ∈ t, P c := by
  cases h with
  | absent => simp
  | digits => exact List.forall_mem_cons.2 ⟨mark _ (by simp), forall_mem_digits digit ds⟩

theorem ExponentText.forall_mem {t : List Char} {e : Option Exponent} (h : ExponentText t e)
    (digit : ∀ d : Digit, P d.char) (mark : ∀ c ∈ ['-', '+', '.', 'e', 'E'], P c) :
    ∀ c ∈ t, P c := by
  cases h with
  | absent => simp
  | @digits symbol sign negative ds hmark hsign _ =>
    refine List.forall_mem_cons.2 ⟨?_, List.forall_mem_append.2 ⟨?_, forall_mem_digits digit ds⟩⟩
    · rcases hmark with rfl | rfl <;> exact mark _ (by simp)
    · cases hsign with
      | absent => simp
      | plus => exact List.forall_mem_singleton.2 (mark _ (by simp))
      | minus => exact List.forall_mem_singleton.2 (mark _ (by simp))

/-- What holds of digits, signs, the point and the marks of an exponent holds of every character
of a numeral. -/
theorem NumeralText.forall_mem {t : List Char} {n : Numeral} (h : NumeralText t n)
    (digit : ∀ d : Digit, P d.char) (mark : ∀ c ∈ ['-', '+', '.', 'e', 'E'], P c) :
    ∀ c ∈ t, P c := by
  obtain ⟨negative, -, hf, he⟩ := h
  refine List.forall_mem_append.2 ⟨?_, List.forall_mem_append.2 ⟨forall_mem_digits digit _,
    List.forall_mem_append.2 ⟨hf.forall_mem digit mark, he.forall_mem digit mark⟩⟩⟩
  cases negative with
  | true => exact List.forall_mem_singleton.2 (mark _ (by simp))
  | false => simp

theorem NumeralText.not_isBlank {t : List Char} {n : Numeral} (h : NumeralText t n) :
    ∀ c ∈ t, Text.isBlank c = false := by
  refine h.forall_mem (by decide) fun c hc => ?_
  fin_cases hc <;> decide

end Json.Grammar

namespace NumericText

open Json.Grammar (ExponentSign ExponentText NumeralText FractionText)
open Uuid (IsCase isCase_toLower)

/-! ### Productions -/

/-- Digits with at most one point and at least one digit: those before and those after the point. -/
inductive PointText : List Char → List Digit → List Digit → Prop where
  | whole {ds : List Digit} (ne : ds ≠ []) : PointText (ds.map Digit.char) ds []
  | point {ds fs : List Digit} (ne : ds ≠ []) :
      PointText (ds.map Digit.char ++ '.' :: fs.map Digit.char) ds fs
  | fraction {fs : List Digit} (ne : fs ≠ []) : PointText ('.' :: fs.map Digit.char) [] fs

/-- A numeral. Its sign is written like that of an exponent. -/
inductive Written : List Char → Numeral → Prop where
  | mk {sign digits mark : List Char} {negative : Bool} {whole fraction : List Digit}
      {exponent : Option Exponent} (hs : ExponentSign sign negative)
      (hd : PointText digits whole fraction) (he : ExponentText mark exponent) :
      Written (sign ++ (digits ++ mark)) ⟨negative, whole, fraction, exponent⟩

/-- A name in any letter case. -/
inductive Named : List Char → Binary64 → Prop where
  | infinite {sign t : List Char} {negative : Bool} (hs : ExponentSign sign negative)
      (ht : List.Forall₂ IsCase ['i', 'n', 'f'] t ∨
        List.Forall₂ IsCase ['i', 'n', 'f', 'i', 'n', 'i', 't', 'y'] t) :
      Named (sign ++ t) (.infinite negative)
  | nan {sign t : List Char} {negative : Bool} (hs : ExponentSign sign negative)
      (ht : List.Forall₂ IsCase ['n', 'a', 'n'] t) : Named (sign ++ t) .nan

/-- The text is in the grammar. -/
def IsNumeric (t : List Char) : Prop := (∃ n, Written t n) ∨ ∃ x, Named t x

/-- The number that a text stands for. -/
inductive Means : List Char → Binary64 → Prop where
  | numeral {t : List Char} {n : Numeral} {r : Option Magnitude} (h : Written t n)
      (hr : Magnitude.IsNearest n.toRat r) : Means t (.ofMagnitude? n.negative r)
  | named {t : List Char} {x : Binary64} (h : Named t x) : Means t x

theorem IsNumeric.exists_means {t : List Char} (h : IsNumeric t) : ∃ x, Means t x := by
  rcases h with ⟨n, hn⟩ | ⟨x, hx⟩
  · obtain ⟨r, hr⟩ := Magnitude.exists_rounds n.toRat_nonneg
    exact ⟨_, .numeral hn hr.isNearest⟩
  · exact ⟨x, .named hx⟩

/-- Numerals of documents are numeric texts. -/
theorem written_of_numeralText {t : List Char} {n : Numeral} (h : NumeralText t n) :
    Written t n := by
  obtain ⟨negative, hw, hf, he⟩ := h
  have hs : ExponentSign (if negative then ['-'] else []) negative := by
    cases negative with
    | true => exact .minus
    | false => exact .absent
  rw [← List.append_assoc (List.map _ _)]
  refine .mk hs ?_ he
  cases hf with
  | absent =>
    rw [List.append_nil]
    exact .whole hw.1
  | digits => exact .point hw.1

theorem Written.length_le {t : List Char} {n : Numeral} (h : Written t n) :
    n.whole.length + n.fraction.length ≤ t.length := by
  obtain ⟨-, hd, -⟩ := h
  rw [List.length_append, List.length_append]
  cases hd <;> simp <;> omega

/-! ### Signs and numerals -/

theorem sign_sound (s : List Char) : ∃ t, ExponentSign t (sign s).1 ∧ s = t ++ (sign s).2 := by
  unfold sign
  split
  · exact ⟨['+'], .plus, rfl⟩
  · exact ⟨['-'], .minus, rfl⟩
  · exact ⟨[], .absent, rfl⟩

theorem sign_append {t : List Char} {negative : Bool} (h : ExponentSign t negative) {c : Char}
    (hplus : c ≠ '+') (hminus : c ≠ '-') (r : List Char) :
    sign (t ++ c :: r) = (negative, c :: r) := by
  cases h with
  | absent =>
    rw [List.nil_append]
    unfold sign
    split
    · next h => exact absurd (List.cons.inj h).1 hplus
    · next h => exact absurd (List.cons.inj h).1 hminus
    · rfl
  | plus => rfl
  | minus => rfl

theorem sign_digits {t : List Char} {negative : Bool} (h : ExponentSign t negative)
    {ds : List Digit} (ne : ds ≠ []) (r : List Char) :
    sign (t ++ (ds.map Digit.char ++ r)) = (negative, ds.map Digit.char ++ r) := by
  obtain ⟨d, ds, rfl⟩ := List.exists_cons_of_ne_nil ne
  exact sign_append h (d.char_ne (by decide)) (d.char_ne (by decide)) _

theorem exponent?_sound {t : List Char} {e : Option Exponent} (h : exponent? t = some e) :
    ExponentText t e := by
  rcases t with - | ⟨c, s⟩
  · cases h
    exact .absent
  · rw [exponent?] at h
    split at h
    · next hmark =>
      split at h
      · next d ds hscan =>
        cases h
        obtain ⟨t, hsign, hs⟩ := sign_sound s
        obtain ⟨hdigits, -⟩ := Digits.scan_eq_iff.1 hscan
        rw [List.append_nil] at hdigits
        have htext := ExponentText.digits hmark hsign (List.cons_ne_nil d ds)
        rwa [← hdigits, ← hs] at htext
      · cases h
    · cases h

theorem exponent?_complete {t : List Char} {e : Option Exponent} (h : ExponentText t e) :
    exponent? t = some e := by
  cases h with
  | absent => rfl
  | @digits mark s negative ds hmark hsign ne =>
    have hs := sign_digits hsign ne []
    have hscan := Digits.scan_append ds Digits.stop_nil
    rw [List.append_nil] at hs hscan
    obtain ⟨d, ds, rfl⟩ := List.exists_cons_of_ne_nil ne
    rw [exponent?, if_pos hmark, hs, hscan]

theorem stop_of_exponentText {t : List Char} {e : Option Exponent} (h : ExponentText t e) :
    Digits.Stop t := by
  cases h with
  | absent => exact Digits.stop_nil
  | digits hmark => rcases hmark with rfl | rfl <;> exact Digits.stop_cons.2 (by decide)

theorem fraction_sound (s : List Char) :
    (fraction s).1 = [] ∧ (fraction s).2 = s ∨
      s = '.' :: ((fraction s).1.map Digit.char ++ (fraction s).2) := by
  unfold fraction
  split
  · next s =>
    obtain ⟨hs, -⟩ := Digits.scan_eq_iff.1 (Prod.mk.eta (p := Digits.scan s)).symm
    exact .inr (congrArg _ hs)
  · exact .inl ⟨rfl, rfl⟩

theorem numeral?_sound {negative : Bool} {s : List Char} {n : Numeral}
    (h : numeral? negative s = some n) :
    ∃ digits mark, s = digits ++ mark ∧ PointText digits n.whole n.fraction ∧
      ExponentText mark n.exponent ∧ n.negative = negative := by
  rw [numeral?] at h
  dsimp only at h
  obtain ⟨hs, -⟩ := Digits.scan_eq_iff.1 (Prod.mk.eta (p := Digits.scan s)).symm
  generalize (Digits.scan s).1 = whole, (Digits.scan s).2 = rest at h hs
  subst hs
  have hrest := fraction_sound rest
  generalize (fraction rest).1 = fs, (fraction rest).2 = mark at h hrest
  split at h
  · cases h
  · next hne =>
    obtain ⟨e, he, rfl⟩ := Option.map_eq_some_iff.1 h
    have hmark := exponent?_sound he
    rcases hrest with ⟨rfl, rfl⟩ | rfl
    · exact ⟨_, mark, rfl, .whole fun hw => hne ⟨hw, rfl⟩, hmark, rfl⟩
    · rcases whole with - | ⟨d, ds⟩
      · exact ⟨_, mark, rfl, .fraction fun hf => hne ⟨rfl, hf⟩, hmark, rfl⟩
      · refine ⟨_, mark, ?_, .point (List.cons_ne_nil d ds), hmark, rfl⟩
        rw [List.append_assoc, List.cons_append]

/-- Behind the digits of a numeral there is no other digit and no point. -/
theorem fraction_exponentText {t : List Char} {e : Option Exponent} (h : ExponentText t e) :
    fraction t = ([], t) := by
  cases h with
  | absent => rfl
  | digits hmark => rcases hmark with rfl | rfl <;> rfl

theorem numeral?_complete (negative : Bool) {s t : List Char} {whole fs : List Digit}
    {e : Option Exponent} (hs : PointText s whole fs) (ht : ExponentText t e) :
    numeral? negative (s ++ t) = some ⟨negative, whole, fs, e⟩ := by
  have hstop := stop_of_exponentText ht
  have hpoint : ∀ r, Digits.Stop ('.' :: r) := fun r => Digits.stop_cons.2 (by decide)
  cases hs with
  | whole ne =>
    simp only [numeral?, Digits.scan_append whole hstop, fraction_exponentText ht, ne, false_and,
      if_false, exponent?_complete ht, Option.map_some]
  | point ne =>
    have hscan := Digits.scan_append whole (hpoint (fs.map Digit.char ++ t))
    have hfraction : fraction ('.' :: (fs.map Digit.char ++ t)) = (fs, t) :=
      Digits.scan_append fs hstop
    simp only [numeral?, List.append_assoc, List.cons_append, hscan, hfraction, ne, false_and,
      if_false, exponent?_complete ht, Option.map_some]
  | fraction ne =>
    have hscan := Digits.scan_append [] (hpoint (fs.map Digit.char ++ t))
    have hfraction : fraction ('.' :: (fs.map Digit.char ++ t)) = (fs, t) :=
      Digits.scan_append fs hstop
    simp only [List.map_nil, List.nil_append] at hscan
    simp only [numeral?, List.cons_append, hscan, hfraction, ne, and_false, if_false,
      exponent?_complete ht, Option.map_some]

/-- Digits and points are no signs. -/
theorem sign_pointText {sgn s t : List Char} {negative : Bool} {whole fs : List Digit}
    (h : ExponentSign sgn negative) (hs : PointText s whole fs) :
    sign (sgn ++ (s ++ t)) = (negative, s ++ t) := by
  cases hs with
  | whole ne => exact sign_digits h ne t
  | point ne =>
    rw [List.append_assoc]
    exact sign_digits h ne _
  | fraction ne => exact sign_append h (by decide) (by decide) _

/-! ### Names -/

theorem toLower_of_isCase {d c : Char} (hd : d ∈ ['a', 'f', 'i', 'n', 't', 'y'])
    (h : IsCase d c) : c.toLower = d := by
  have hletters : d.toLower = d ∧ d.toUpper.toLower = d := by
    fin_cases hd <;> decide
  rcases h with rfl | rfl
  · exact hletters.1
  · exact hletters.2

theorem forall₂_isCase_iff {name s : List Char}
    (h : ∀ d ∈ name, d ∈ ['a', 'f', 'i', 'n', 't', 'y']) :
    List.Forall₂ IsCase name s ↔ s.map Char.toLower = name := by
  induction name generalizing s with
  | nil => simp
  | cons d name ih =>
    have hname := fun c hc => h c (List.mem_cons_of_mem d hc)
    constructor
    · rintro (- | ⟨hc, hs⟩)
      rw [List.map_cons, toLower_of_isCase (h d List.mem_cons_self) hc, (ih hname).1 hs]
    · intro hs
      rcases s with - | ⟨c, s⟩
      · cases hs
      · obtain ⟨hc, hs⟩ := List.cons.inj hs
        exact .cons (hc ▸ isCase_toLower c) ((ih hname).2 hs)

theorem named?_eq_some_iff {negative : Bool} {s : List Char} {x : Binary64} :
    named? negative s = some x ↔
      x = .infinite negative ∧ (List.Forall₂ IsCase ['i', 'n', 'f'] s ∨
        List.Forall₂ IsCase ['i', 'n', 'f', 'i', 'n', 'i', 't', 'y'] s) ∨
      x = .nan ∧ List.Forall₂ IsCase ['n', 'a', 'n'] s := by
  rw [forall₂_isCase_iff (by simp), forall₂_isCase_iff (by simp), forall₂_isCase_iff (by simp)]
  unfold named?
  generalize s.map Char.toLower = name
  dsimp only
  constructor
  · intro h
    split_ifs at h with hinf hnan
    · exact .inl ⟨(Option.some.inj h).symm, hinf⟩
    · exact .inr ⟨(Option.some.inj h).symm, hnan⟩
  · rintro (⟨rfl, hinf⟩ | ⟨rfl, rfl⟩)
    · rw [if_pos hinf]
    · rw [if_neg (by decide), if_pos rfl]

/-- The first letter of a name is none of the characters that a numeral begins with. -/
theorem exists_letter {name s : List Char} (h : List.Forall₂ IsCase name s)
    (hname : name.head? = some 'i' ∨ name.head? = some 'n') :
    ∃ c r, s = c :: r ∧ c ≠ '+' ∧ c ≠ '-' ∧ c ≠ '.' ∧ Digit.ofChar? c = none := by
  rcases h with - | @⟨d, c, name, r, hc, -⟩
  · rcases hname with h | h <;> cases h
  · refine ⟨c, r, rfl, ?_⟩
    rcases hname with h | h <;> cases h <;> rcases hc with rfl | rfl <;> decide

theorem numeral?_eq_none {c : Char} (hpoint : c ≠ '.') (hdigit : Digit.ofChar? c = none)
    (negative : Bool) (s : List Char) : numeral? negative (c :: s) = none := by
  have hscan := Digits.scan_append [] (Digits.stop_cons.2 hdigit : Digits.Stop (c :: s))
  have hfraction : fraction (c :: s) = ([], c :: s) := by
    unfold fraction
    split
    · next h => exact absurd (List.cons.inj h).1 hpoint
    · rfl
  simp only [List.map_nil, List.nil_append] at hscan
  simp only [numeral?, hscan, hfraction, true_and, if_true]

/-! ### Reading -/

theorem numeral?_of_written {t : List Char} {n : Numeral} (h : Written t n) :
    numeral? (sign t).1 (sign t).2 = some n := by
  obtain ⟨hs, hd, he⟩ := h
  rw [sign_pointText hs hd]
  exact numeral?_complete _ hd he

theorem Written.unique {t : List Char} {m n : Numeral} (hm : Written t m) (hn : Written t n) :
    m = n :=
  Option.some.inj ((numeral?_of_written hm).symm.trans (numeral?_of_written hn))

theorem read?_of_written {t : List Char} {n : Numeral} (h : Written t n) :
    read? t = some (nearest n) := by
  rw [read?]
  dsimp only
  rw [numeral?_of_written h]

theorem read?_of_named {t : List Char} {x : Binary64} (h : Named t x) : read? t = some x := by
  obtain ⟨sgn, s, negative, hs, rfl, hx, c, r, rfl, hplus, hminus, hpoint, hdigit⟩ :
      ∃ sgn s negative, ExponentSign sgn negative ∧ t = sgn ++ s ∧ named? negative s = some x ∧
        ∃ c r, s = c :: r ∧ c ≠ '+' ∧ c ≠ '-' ∧ c ≠ '.' ∧ Digit.ofChar? c = none := by
    cases h with
    | @infinite sgn s negative hs ht =>
      refine ⟨sgn, s, negative, hs, rfl, named?_eq_some_iff.2 (.inl ⟨rfl, ht⟩), ?_⟩
      rcases ht with ht | ht <;> exact exists_letter ht (.inl rfl)
    | @nan sgn s negative hs ht =>
      exact ⟨sgn, s, negative, hs, rfl, named?_eq_some_iff.2 (.inr ⟨rfl, ht⟩),
        exists_letter ht (.inr rfl)⟩
  simp only [read?, sign_append hs hplus hminus, numeral?_eq_none hpoint hdigit, hx]

theorem read?_eq_some_iff {t : List Char} {x : Binary64} :
    read? t = some x ↔ (∃ n, Written t n ∧ nearest n = x) ∨ Named t x := by
  constructor
  · intro h
    obtain ⟨sgn, hsign, ht⟩ := sign_sound t
    rw [read?] at h
    dsimp only at h
    generalize (sign t).1 = negative, (sign t).2 = s at h hsign ht
    subst ht
    split at h
    · next n hn =>
      obtain ⟨digits, mark, rfl, hd, he, rfl⟩ := numeral?_sound hn
      exact .inl ⟨n, .mk hsign hd he, Option.some.inj h⟩
    · rcases named?_eq_some_iff.1 h with ⟨rfl, ht⟩ | ⟨rfl, ht⟩
      · exact .inr (.infinite hsign ht)
      · exact .inr (.nan hsign ht)
  · rintro (⟨n, hn, rfl⟩ | h)
    · exact read?_of_written hn
    · exact read?_of_named h

theorem read?_eq_none_iff {t : List Char} : read? t = none ↔ ¬ IsNumeric t := by
  rw [Option.eq_none_iff_forall_ne_some, IsNumeric]
  constructor
  · rintro h (⟨n, hn⟩ | ⟨x, hx⟩)
    · exact h _ (read?_of_written hn)
    · exact h _ (read?_of_named hx)
  · intro h x hx
    rcases read?_eq_some_iff.1 hx with ⟨n, hn, -⟩ | hx
    · exact h (.inl ⟨n, hn⟩)
    · exact h (.inr ⟨x, hx⟩)

/-! ### Exponents that are not read to their end -/

/-- An exponent is read as it is written, or the one and the other pass 2^16. -/
theorem boundedPower_cases (ds : List Digit) :
    boundedPower ds = Digits.value ds ∨
      0x10000 ≤ boundedPower ds ∧ 0x10000 ≤ Digits.value ds := by
  induction ds using List.reverseRecOn with
  | nil => exact .inl rfl
  | append_singleton ds d ih =>
    have hstep : boundedPower (ds ++ [d]) =
        if boundedPower ds < 0x10000 then 10 * boundedPower ds + d.val else boundedPower ds := by
      rw [boundedPower, List.foldl_append]
      rfl
    rw [hstep, Digits.value_append_singleton]
    split <;> omega

theorem power_cases (n : Numeral) :
    power n = n.power ∨
      0x10000 ≤ power n + n.fraction.length ∧ 0x10000 ≤ n.power + n.fraction.length ∨
      power n + n.fraction.length ≤ -0x10000 ∧ n.power + n.fraction.length ≤ -0x10000 := by
  rw [Numeral.power, Numeral.writtenPower]
  cases hn : n.exponent with
  | none =>
    simp only [power, hn]
    omega
  | some e =>
    have hcases := boundedPower_cases e.digits
    simp only [power, hn, Exponent.signed]
    split <;> omega

theorem power_eq {n : Numeral} (h : n.writtenPower.natAbs < 0x10000) : power n = n.power := by
  have hcases := power_cases n
  rw [Numeral.power] at hcases ⊢
  omega

theorem nearest_of_rounds {n : Numeral} (h : n.writtenPower.natAbs < 0x10000)
    {r : Option Magnitude} (hr : Magnitude.Rounds n.toRat r) :
    nearest n = .ofMagnitude? n.negative r := by
  have hround := Magnitude.rounds_ofDecimal n.coefficient n.power
  rw [nearest, power_eq h, hround.unique hr]

/-- A numeral with few digits is read as the number nearest to it. -/
theorem isNearest_of_length {n : Numeral}
    (h : n.whole.length + n.fraction.length < 60000) :
    ∃ r, Magnitude.IsNearest n.toRat r ∧ nearest n = .ofMagnitude? n.negative r := by
  refine ⟨_, Magnitude.Rounds.isNearest ?_, rfl⟩
  have hread := Magnitude.rounds_ofDecimal n.coefficient (power n)
  rcases Nat.eq_zero_or_pos n.coefficient with hc | hc
  · rw [hc, Nat.cast_zero, zero_mul] at hread
    rwa [Numeral.toRat, hc, Nat.cast_zero, zero_mul]
  have hc' : (1 : ℚ) ≤ n.coefficient := by exact_mod_cast hc
  rcases power_cases n with hp | ⟨hp, hp'⟩ | ⟨hp, hp'⟩
  · rwa [hp] at hread ⊢
  · -- Both are out of range.
    have hover : ∀ p : Int, 400 ≤ p → Magnitude.overflow ≤ n.coefficient * 10 ^ p := fun p hp =>
      (Magnitude.overflow_le_pow hp).trans (le_mul_of_one_le_left (by positivity) hc')
    obtain ⟨r, hr⟩ := Magnitude.exists_rounds n.toRat_nonneg
    rw [hread.eq_none_iff.2 (hover _ (by omega))]
    rwa [hr.eq_none_iff.2 (hover _ (by omega))] at hr
  · -- Both are next to nothing.
    have hzero : ∀ p : Int, p + n.fraction.length ≤ -0x10000 →
        Magnitude.Rounds (n.coefficient * 10 ^ p) (some .zero) := by
      intro p hp
      have hlt : (n.coefficient : ℚ) < 10 ^ (n.whole.length + n.fraction.length) := by
        have := Digits.value_lt (n.whole ++ n.fraction)
        rw [List.length_append] at this
        exact_mod_cast this
      have hle : (n.coefficient : ℚ) * 10 ^ p ≤
          10 ^ ((n.whole.length + n.fraction.length : Nat) + p) := by
        rw [zpow_add₀ (by norm_num), zpow_natCast]
        gcongr
      exact Magnitude.rounds_zero_of_le_pow (by positivity) (by omega) hle
    rw [hread.unique (hzero _ hp)]
    exact hzero _ hp'

/-- Reading gives the number that a text stands for. -/
theorem read?_of_means {t : List Char} {x : Binary64} (ht : t.length < 60000) (h : Means t x) :
    read? t = some x := by
  cases h with
  | @numeral n r h hr =>
    have := h.length_le
    obtain ⟨r', hr', hread⟩ := isNearest_of_length (n := n) (by omega)
    rw [read?_of_written h, hread, hr.unique hr']
  | named h => exact read?_of_named h

end NumericText

namespace Coercion

theorem readNumber_string {field : String} {s : String} {t : List Char}
    (h : Text.Strips s.toList t) {x : Binary64} (hx : NumericText.read? t = some x) :
    readNumber field (.string s) = .ok x := by
  rw [readNumber, Text.strips_iff.1 h, hx]

theorem readNumber_text (field : String) {t : List Char} {n : Numeral}
    (h : Json.Grammar.NumeralText t n) :
    readNumber field (.string (.ofList t)) = .ok (NumericText.nearest n) := by
  refine readNumber_string ?_
    (NumericText.read?_of_written (NumericText.written_of_numeralText h))
  rw [String.toList_ofList]
  exact Text.strips_self h.not_isBlank

end Coercion

end ConfigGate
