import Mathlib
import ConfigGate.Proofs.Decimal.NumericGrammar
import ConfigGate.Proofs.Moment.Days
import ConfigGate.Proofs.Moment.Offset

/-!
# Dates and times by their fields

A text `YYYY-MM-DDThh:mm:ss` with any digits in it, perhaps with a fraction of a second, is read as
its fields where they are a date of the calendar and a time of the day, and is refused everywhere
else. So is the date alone (`moment_fields`). A second of 60 is left out: it is read as 59.
-/

namespace ConfigGate

namespace Moment

open Grammar (ComponentText DateText ClockText TimeText WrittenText)

/-! ### Texts -/

/-- The text `YYYY-MM-DD`. -/
def dateFields (year month day : Nat) : List Char :=
  paddedText 4 year ++ '-' :: (paddedText 2 month ++ '-' :: paddedText 2 day)

/-- The text `hh:mm:ss`. -/
def timeFields (hour minute second : Nat) : List Char :=
  paddedText 2 hour ++ ':' :: (paddedText 2 minute ++ ':' :: paddedText 2 second)

/-- A point and the digits behind it, nothing if there are none. -/
def fractionFields (ds : List Digit) : List Char := if ds = [] then [] else '.' :: ds.map Digit.char

theorem fractionText_fields {ds : List Digit} (h : ds.length ≤ 9) :
    Grammar.FractionText (fractionFields ds) (Digits.value ds * 10 ^ (9 - ds.length)) := by
  by_cases hds : ds = []
  · subst hds
    exact .absent
  · rw [fractionFields, if_neg hds]
    exact .digits (.inl rfl) hds h

theorem length_padded_width (c : Component) {n : Nat} (hn : n < 10 ^ c.width) :
    (Digits.padded c.width n).length = c.width :=
  Digits.length_padded (by cases c <;> decide) hn

theorem componentText_padded (c : Component) {n : Nat} (h : c.bounds.1 ≤ n ∧ n ≤ c.bounds.2) :
    ComponentText c (paddedText c.width n) n := by
  have hbound : c.bounds.2 < 10 ^ c.width := by cases c <;> decide
  have hlen := length_padded_width c (Nat.lt_of_le_of_lt h.2 hbound)
  have ht := ComponentText.mk _ hlen (by rwa [Digits.value_padded])
  rwa [Digits.value_padded, ← paddedText_eq] at ht

theorem dateText_fields {year month day : Nat} (hyear : year ≤ 9999)
    (h : Date.Exists ⟨year, month, day⟩) :
    DateText (dateFields year month day) ⟨year, month, day⟩ := by
  obtain ⟨hlow, hhigh, hday, hlast⟩ := id h
  have hday' : day ≤ 31 := by
    simp only [daysInMonth] at hlast
    split_ifs at hlast <;> omega
  exact .mk true (componentText_padded .year ⟨Nat.zero_le year, hyear⟩)
    (componentText_padded .month ⟨hlow, hhigh⟩) (componentText_padded .day ⟨hday, hday'⟩) h

theorem clockText_fields {hour minute second : Nat} (hh : hour ≤ 23) (hm : minute ≤ 59)
    (hs : second ≤ 59) {ds : List Digit} (h : ds.length ≤ 9) :
    ClockText (timeFields hour minute second ++ fractionFields ds)
      ⟨hour, minute, second, Digits.value ds * 10 ^ (9 - ds.length)⟩ := by
  have ht : TimeText .hour .minute .second _ _ _ _ _ :=
    .seconds true (componentText_padded .hour ⟨Nat.zero_le hour, hh⟩)
      (componentText_padded .minute ⟨Nat.zero_le minute, hm⟩)
      (componentText_padded .second ⟨Nat.zero_le second, Nat.le_succ_of_le hs⟩)
      (fractionText_fields h)
  have hclock := ClockText.mk ht
  rw [Option.getD_some, Option.getD_some, Nat.min_eq_left hs] at hclock
  simpa [timeFields, Grammar.markText, Component.width] using hclock

end Moment

namespace Civil.IsWritable

open Moment Moment.Grammar

variable {c : Civil}

theorem dateText (h : c.IsWritable) :
    DateText (dateFields c.date.year.toNat c.date.month c.date.day) c.date := by
  obtain ⟨⟨year, month, day⟩, clock⟩ := c
  obtain ⟨⟨hlow, hhigh⟩, hdate, -⟩ := h
  lift year to Nat using hlow
  exact dateText_fields (Int.ofNat_le.1 hhigh) hdate

theorem clockText (h : c.IsWritable) {ds : List Digit}
    (hds : ds.length ≤ 9 ∧ Digits.value ds * 10 ^ (9 - ds.length) = c.clock.nanosecond) :
    ClockText (timeFields c.clock.hour c.clock.minute c.clock.second ++ fractionFields ds)
      c.clock := by
  obtain ⟨date, hour, minute, second, nanosecond⟩ := c
  obtain ⟨hlength, rfl⟩ := hds
  exact clockText_fields h.clock.hour h.clock.minute h.clock.second hlength

end Civil.IsWritable

namespace Moment

/-! ### Fields that are read -/

namespace Grammar

variable {t x r : List Char}

/-- A component in front of a text is the number that stands there in as many digits. -/
theorem ComponentText.eq_of_padded {c : Component} {n k : Nat} (h : ComponentText c t n)
    (hk : k < 10 ^ c.width) (heq : t ++ x = paddedText c.width k ++ r) : n = k ∧ x = r := by
  obtain ⟨ds, hlen, -⟩ := h
  rw [paddedText_eq] at heq
  obtain ⟨hds, hx⟩ := List.append_inj heq (by simp [hlen, length_padded_width c hk])
  obtain rfl := List.map_injective_iff.2 Digit.char_injective hds
  exact ⟨Digits.value_padded _ _, hx⟩

/-- A component begins with a digit, so that a mark in front of it is no part of it. -/
theorem ComponentText.eq_of_mark {c : Component} {n : Nat} (h : ComponentText c t n) {m : Char}
    (hm : Digit.ofChar? m = none) {extended : Bool}
    (heq : markText extended m ++ (t ++ x) = m :: r) : t ++ x = r := by
  cases extended with
  | true => exact (List.cons.inj heq).2
  | false =>
    obtain ⟨d, u, rfl⟩ := Parse.exists_digit h
    exact absurd (List.cons.inj heq).1 (d.char_ne hm)

theorem DateText.eq_of_fields {d : Date} (h : DateText t d) {year month day : Nat}
    (hyear : year < 10000) (hmonth : month < 100) (hday : day < 100)
    (heq : t ++ x = dateFields year month day ++ r) : d = ⟨year, month, day⟩ ∧ x = r := by
  obtain ⟨extended, hy, hm, hd, -⟩ := h
  simp only [dateFields, List.append_assoc, List.cons_append] at heq
  obtain ⟨rfl, h₁⟩ := hy.eq_of_padded hyear heq
  have h₂ := hm.eq_of_mark (by decide) h₁
  obtain ⟨rfl, h₃⟩ := hm.eq_of_padded hmonth h₂
  have h₄ := hd.eq_of_mark (by decide) h₃
  obtain ⟨rfl, h₅⟩ := hd.eq_of_padded hday h₄
  exact ⟨rfl, h₅⟩

/-- A time cannot end in front of a colon, so that all of the fields are read. -/
theorem ClockText.bounds_of_fields {c : Clock} (h : ClockText t c) (hx : Parse.Ends x)
    {hour minute second : Nat} (hhour : hour < 100) (hminute : minute < 100)
    (hsecond : second < 100) (heq : t ++ x = timeFields hour minute second ++ r) :
    hour ≤ 23 ∧ minute ≤ 59 ∧ second ≤ 60 := by
  have hcolon : ∀ {s}, x ≠ ':' :: s := by
    rintro s rfl
    exact (hx ':' rfl).2.1 rfl
  obtain ⟨ht⟩ := h
  cases ht with
  | hours ha =>
    simp only [timeFields, List.append_assoc, List.cons_append] at heq
    exact absurd (ha.eq_of_padded hhour heq).2 hcolon
  | minutes extended ha hb =>
    simp only [timeFields, List.append_assoc, List.cons_append] at heq
    obtain ⟨-, h₁⟩ := ha.eq_of_padded hhour heq
    have h₂ := hb.eq_of_mark (by decide) h₁
    exact absurd (hb.eq_of_padded hminute h₂).2 hcolon
  | seconds extended ha hb hc hf =>
    simp only [timeFields, List.append_assoc, List.cons_append] at heq
    obtain ⟨rfl, h₁⟩ := ha.eq_of_padded hhour heq
    have h₂ := hb.eq_of_mark (by decide) h₁
    obtain ⟨rfl, h₃⟩ := hb.eq_of_padded hminute h₂
    have h₄ := hc.eq_of_mark (by decide) h₃
    obtain ⟨rfl, -⟩ := hc.eq_of_padded hsecond h₄
    exact ⟨ha.bounds.2, hb.bounds.2, hc.bounds.2⟩

/-- Fields of a date are in the calendar if a written moment begins with them, and what follows them
is nothing or a time. -/
theorem WrittenText.exists_of_fields {year month day : Nat} (hyear : year < 10000)
    (hmonth : month < 100) (hday : day < 100) {w : Written}
    (h : WrittenText (dateFields year month day ++ r) w) :
    Date.Exists ⟨year, month, day⟩ ∧ (r = [] ∨ ∃ c t x clock,
      r = c :: (t ++ x) ∧ ClockText t clock ∧ Parse.Ends x) := by
  generalize hs : dateFields year month day ++ r = s at h
  cases h with
  | date hd =>
    rw [← List.append_nil s] at hs
    obtain ⟨rfl, hr⟩ := hd.eq_of_fields hyear hmonth hday hs.symm
    exact ⟨hd.isWritable.2, .inl hr.symm⟩
  | @civil d t _ _ c hd hc ht =>
    obtain ⟨rfl, hr⟩ := hd.eq_of_fields hyear hmonth hday hs.symm
    exact ⟨hd.isWritable.2, .inr ⟨c, t, [], _, by rw [← hr, List.append_nil], ht, Parse.ends_nil⟩⟩
  | @zoned d t o _ _ _ c hd hc ht ho =>
    obtain ⟨rfl, hr⟩ := hd.eq_of_fields hyear hmonth hday hs.symm
    exact ⟨hd.isWritable.2, .inr ⟨c, t, o, _, hr.symm, ht, Parse.ends_of_offsetText ho⟩⟩

end Grammar

/-! ### Whole texts -/

/-- Digits with a hyphen behind them are no number, with or without a sign. -/
theorem not_isFiniteNumber_year {sign : List Char} {negative : Bool}
    (hsign : Json.Grammar.ExponentSign sign negative) (w n : Nat) (s : List Char) :
    ¬ IsFiniteNumber (sign ++ (paddedText w n ++ '-' :: s)) := by
  refine not_isFiniteNumber_of_none ?_
  have hne := Digits.padded_ne_nil w n
  rw [paddedText_eq]
  generalize Digits.padded w n = ds at hne
  have hstop : Digits.Stop ('-' :: s) := Digits.stop_cons.2 (by decide)
  have hnumeral : NumericText.numeral? negative (ds.map Digit.char ++ '-' :: s) = none := by
    simp only [NumericText.numeral?, Digits.scan_append ds hstop]
    simp [NumericText.fraction, NumericText.exponent?]
  have hnamed : NumericText.named? negative (ds.map Digit.char ++ '-' :: s) = none := by
    have hlower : ∀ d : Digit, d.char.toLower ≠ 'i' ∧ d.char.toLower ≠ 'n' := by decide
    obtain ⟨d, ds, rfl⟩ := List.exists_cons_of_ne_nil hne
    simp [NumericText.named?, hlower d]
  simp only [NumericText.read?, NumericText.sign_digits hsign hne, hnumeral, hnamed]

theorem not_isFiniteNumber_fields (year month day : Nat) (r : List Char) :
    ¬ IsFiniteNumber (dateFields year month day ++ r) := by
  rw [dateFields, List.append_assoc, List.cons_append]
  exact not_isFiniteNumber_year .absent 4 year _

end Moment

namespace Coercion

open Moment Moment.Grammar

theorem moment_of_writtenText {field : String} {s : List Char} (hs : ¬ IsFiniteNumber s)
    {w : Written} (hw : WrittenText s w) (hnone : w.offset = none) :
    moment field (.string (String.ofList s)) = .ok (.civil w.civil) := by
  refine (moment_string_iff ?_).2 ⟨w, ?_, Written.moment_of_none hnone⟩ <;>
    rwa [String.toList_ofList]

/-- A text that is no number is refused if it does not spell a written moment. -/
theorem exists_momentParsing {field : String} {s : List Char} (hs : ¬ IsFiniteNumber s)
    (h : ∀ w, ¬ WrittenText s w) :
    ∃ e, moment field (.string (String.ofList s)) = .error e ∧ e.kind = .momentParsing := by
  cases hm : moment field (.string (String.ofList s)) with
  | ok m =>
    obtain ⟨w, hw, -⟩ := (moment_string_iff (by rwa [String.toList_ofList])).1 hm
    rw [String.toList_ofList] at hw
    exact absurd hw (h w)
  | error e =>
    refine ⟨e, rfl, ?_⟩
    rw [moment] at hm
    split at hm
    · cases hm
    · cases hm
      rfl
    · next hread => cases hread

/-- A text of digits in the places of a date and a time is read as these if they are in the calendar
and on the clock, and is refused if not. The date alone stands for its midnight. -/
theorem moment_fields (field : String) {year month day hour minute second : Nat}
    (hyear : year < 10000) (hmonth : month < 100) (hday : day < 100) (hhour : hour < 100)
    (hminute : minute < 100) (hsecond : second < 100) (hleap : second ≠ 60) {fraction : List Digit}
    (hfraction : fraction.length ≤ 9) :
    let date : Date := ⟨year, month, day⟩
    let clock : Clock := ⟨hour, minute, second, Digits.value fraction * 10 ^ (9 - fraction.length)⟩
    let full := moment field (.string (String.ofList (dateFields year month day ++
      'T' :: (timeFields hour minute second ++ fractionFields fraction))))
    let bare := moment field (.string (String.ofList (dateFields year month day)))
    (date.InCalendar ∧ hour ≤ 23 ∧ minute ≤ 59 ∧ second ≤ 59 → full = .ok (.civil ⟨date, clock⟩)) ∧
    (¬ (date.InCalendar ∧ hour ≤ 23 ∧ minute ≤ 59 ∧ second ≤ 59) →
      ∃ e, full = .error e ∧ e.kind = .momentParsing) ∧
    (date.InCalendar → bare = .ok (.civil ⟨date, ⟨0, 0, 0, 0⟩⟩)) ∧
    (¬ date.InCalendar → ∃ e, bare = .error e ∧ e.kind = .momentParsing) := by
  intro date clock full bare
  have hfull := not_isFiniteNumber_fields year month day
    ('T' :: (timeFields hour minute second ++ fractionFields fraction))
  have hbare := not_isFiniteNumber_fields year month day []
  rw [List.append_nil] at hbare
  refine ⟨?_, fun h => ?_, fun h => ?_, fun h => ?_⟩
  · rintro ⟨hdate, hh, hm, hs⟩
    have hd := dateText_fields (Nat.le_of_lt_succ hyear) (Date.inCalendar_iff.1 hdate)
    have hc := clockText_fields hh hm hs hfraction
    exact moment_of_writtenText hfull (.civil hd (.inl rfl) hc) rfl
  · refine exists_momentParsing hfull fun w hw => h ?_
    obtain ⟨hdate, hr | ⟨c, t, x, clock, hr, ht, hx⟩⟩ := hw.exists_of_fields hyear hmonth hday
    · cases hr
    · obtain ⟨hh, hm, hs⟩ :=
        ht.bounds_of_fields hx hhour hminute hsecond (List.cons.inj hr).2.symm
      exact ⟨Date.inCalendar_iff.2 hdate, hh, hm, by omega⟩
  · have hd := dateText_fields (Nat.le_of_lt_succ hyear) (Date.inCalendar_iff.1 h)
    exact moment_of_writtenText hbare (.date hd) rfl
  · refine exists_momentParsing hbare fun w hw => h ?_
    rw [← List.append_nil (dateFields year month day)] at hw
    exact Date.inCalendar_iff.2 (hw.exists_of_fields hyear hmonth hday).1

/-- The year 2000 has a 29th of February, as the year zero, and 1900 has none. -/
theorem moment_fields_century :
    moment "timestamp" (.string "2000-02-29T23:59:59.25") =
      .ok (.civil ⟨⟨2000, 2, 29⟩, ⟨23, 59, 59, 250000000⟩⟩) ∧
    (∃ e, moment "timestamp" (.string "1900-02-29T23:59:59.25") = .error e ∧
      e.kind = .momentParsing) ∧
    moment "timestamp" (.string "0000-02-29") = .ok (.civil ⟨⟨0, 2, 29⟩, ⟨0, 0, 0, 0⟩⟩) := by
  have hread : ∀ year < 10000, _ := fun year hyear =>
    moment_fields "timestamp" hyear (by decide : 2 < 100) (by decide : 29 < 100)
      (by decide : 23 < 100) (by decide : 59 < 100) (by decide : 59 < 100) (by decide)
      (by decide : [(2 : Digit), 5].length ≤ 9)
  have h2000 : String.ofList (dateFields 2000 2 29 ++
      'T' :: (timeFields 23 59 59 ++ fractionFields [2, 5])) = "2000-02-29T23:59:59.25" := by
    decide +kernel
  have h1900 : String.ofList (dateFields 1900 2 29 ++
      'T' :: (timeFields 23 59 59 ++ fractionFields [2, 5])) = "1900-02-29T23:59:59.25" := by
    decide +kernel
  have hzero : String.ofList (dateFields 0 2 29) = "0000-02-29" := by decide +kernel
  rw [← h2000, ← h1900, ← hzero]
  exact ⟨(hread 2000 (by decide)).1 (by decide), (hread 1900 (by decide)).2.1 (by decide),
    (hread 0 (by decide)).2.2.1 (by decide)⟩

end Coercion

end ConfigGate
