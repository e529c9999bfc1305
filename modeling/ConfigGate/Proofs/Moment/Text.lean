import Mathlib
import ConfigGate.Proofs.Moment.Fields

/-!
# The text of a moment

A date and time in the years 0 to 9999 is written by its fields, and so it is read back from its
text, as it is or, with a `Z` behind it, as an instant in UTC. What is read from a text is such a
date and time. A text with a sign in front of its year is refused.
-/

namespace ConfigGate

open Moment Moment.Grammar

/-! ### Texts that are written -/

/-- The digits of a fraction up to the last that is not zero stand for the whole of it. -/
theorem nanoseconds_dropZeros {n : Nat} (h : n < 10 ^ 9) {ds : List Digit}
    (hds : ds = Digits.dropZeros (Digits.fixed Digit.base_pos 9 n)) :
    ds.length ≤ 9 ∧ Digits.value ds * 10 ^ (9 - ds.length) = n := by
  obtain ⟨zeros, happend, hzeros⟩ := Digits.dropZeros_append (Digits.fixed Digit.base_pos 9 n)
  rw [← hds] at happend
  have hlen := congrArg List.length happend
  have hval := congrArg Digits.value happend
  rw [List.length_append, Digits.length_fixed] at hlen
  rw [Digits.value_fixed, Nat.mod_eq_of_lt h, Digits.value_append, Digits.value_zeros hzeros,
    Nat.add_zero] at hval
  have hdropped : 9 - ds.length = zeros.length := by omega
  exact ⟨by omega, hdropped ▸ hval.symm⟩

namespace Civil

theorem text_eq_fields {c : Civil} (h : 0 ≤ c.date.year) :
    c.text = dateFields c.date.year.toNat c.date.month c.date.day ++ 'T' ::
      (timeFields c.clock.hour c.clock.minute c.clock.second ++
        fractionFields (Digits.dropZeros (Digits.fixed Digit.base_pos 9 c.clock.nanosecond))) := by
  have hyear : c.date.year.natAbs = c.date.year.toNat := by omega
  simp [text, Date.text, Clock.text, yearText, fractionText, dateFields, timeFields, fractionFields,
    Int.not_lt.2 h, hyear]

theorem exists_text_of_neg {c : Civil} (h : c.date.year < 0) : ∃ rest,
    c.text = ['-'] ++ (paddedText 6 c.date.year.natAbs ++ '-' :: rest) := by
  refine ⟨paddedText 2 c.date.month ++ '-' :: paddedText 2 c.date.day ++ 'T' :: c.clock.text, ?_⟩
  simp [text, Date.text, yearText, h]

theorem IsWritable.clockText_dropZeros {c : Civil} (h : c.IsWritable) :
    ClockText (timeFields c.clock.hour c.clock.minute c.clock.second ++
      fractionFields (Digits.dropZeros (Digits.fixed Digit.base_pos 9 c.clock.nanosecond)))
      c.clock :=
  h.clockText (nanoseconds_dropZeros h.clock.nanosecond rfl)

theorem isWritable_ofNanoseconds (t : Instant) (h : 0 ≤ (ofNanoseconds t.nanoseconds).date.year) :
    (ofNanoseconds t.nanoseconds).IsWritable := by
  refine ⟨⟨h, ?_⟩, Date.exists_ofDayNumber _, isValid_clock_ofNanoseconds _⟩
  refine Date.year_le_of_dayNumber (Date.exists_ofDayNumber _) ?_
  have := t.inRange
  simp only [ofNanoseconds, Date.dayNumber_ofDayNumber, Clock.perSecond]
  omega

end Civil

/-! ### Reading them -/

namespace Moment

theorem parse_of_writtenText_fields {year month day : Nat} {s : List Char} {w : Written}
    (h : WrittenText (dateFields year month day ++ s) w) {m : Moment} (hm : w.moment = .ok m) :
    parse (dateFields year month day ++ s) = .ok m := by
  rw [parse_of_not_isFiniteNumber (not_isFiniteNumber_fields _ _ _ _)]
  exact ofWords_eq_ok_iff.2 ⟨w, h, hm⟩

theorem parse_text_civil {c : Civil} (h : c.IsWritable) : parse c.text = .ok (.civil c) := by
  have hw := WrittenText.civil h.dateText (.inl rfl : IsSeparator 'T') h.clockText_dropZeros
  rw [Civil.text_eq_fields h.year.1]
  exact parse_of_writtenText_fields hw (Written.moment_of_none rfl)

theorem parse_text_instant (t : Instant)
    (h : 0 ≤ (Civil.ofNanoseconds t.nanoseconds).date.year) : parse t.text = .ok (.instant t) := by
  have hwritable := Civil.isWritable_ofNanoseconds t h
  have hutc := Civil.nanoseconds_ofNanoseconds t.nanoseconds
  rw [Instant.text]
  generalize Civil.ofNanoseconds t.nanoseconds = c at h hwritable hutc
  have hw := WrittenText.zoned hwritable.dateText (.inl rfl : IsSeparator 'T')
    hwritable.clockText_dropZeros (.zulu (.inl rfl : 'Z' = 'Z' ∨ 'Z' = 'z'))
  rw [Civil.text_eq_fields h, List.append_assoc, List.cons_append]
  refine parse_of_writtenText_fields hw (Written.moment_of_utc rfl rfl ?_)
  simpa [Written.utc, Written.civil, Offset.seconds] using hutc

/-- A year before zero has a sign, and its text is refused. -/
theorem parse_text_negative (t : Instant)
    (h : (Civil.ofNanoseconds t.nanoseconds).date.year < 0) :
    parse t.text = .error .unsupported := by
  rw [Instant.text]
  generalize Civil.ofNanoseconds t.nanoseconds = c at h
  obtain ⟨rest, hrest⟩ := Civil.exists_text_of_neg h
  have hnumber := not_isFiniteNumber_year .minus 6 c.date.year.natAbs (rest ++ ['Z'])
  rw [hrest, List.append_assoc, List.append_assoc]
  exact (parse_of_not_isFiniteNumber hnumber).trans rfl

/-! ### What is read -/

/-- A civil date and time that is read from a text can be written. -/
theorem isWritable_of_parse {s : List Char} {c : Civil} (h : parse s = .ok (.civil c)) :
    c.IsWritable := by
  by_cases hs : IsFiniteNumber s
  · obtain ⟨negative, x, hread⟩ := hs
    rw [parse, hread] at h
    obtain ⟨t, -, ht⟩ := Except.map_eq_ok_iff.1 h
    cases ht
  · rw [parse_of_not_isFiniteNumber hs] at h
    obtain ⟨w, hw, hm⟩ := ofWords_eq_ok_iff.1 h
    unfold Written.moment at hm
    split at hm
    · cases hm
    · split at hm
      · cases hm
      · cases hm
        exact hw.isWritable

end Moment

end ConfigGate
