import Mathlib
import ConfigGate.Moment.Calendar

/-!
# The calendar

Every day number is that of a date of the calendar, and every number of nanoseconds that of a date
and a time of day. A day is found by its cycle of 400 years, its century, its four years and its
year, all counted from March.
-/

namespace ConfigGate

namespace Date

/-- The date `d` days after the first of March of `year`. -/
def ofMarch (year : Int) (d : Nat) : Date :=
  let marchMonth := (5 * d + 2) / 153
  { year := if marchMonth < 10 then year else year + 1
    month := if marchMonth < 10 then marchMonth + 3 else marchMonth - 9
    day := d - daysBeforeMonth marchMonth + 1 }

/-- A place in a cycle of 400 years: the century, the four years, the year, and the day. A year has
a day more where the next is a leap year. -/
structure IsPlace (c l s d : Nat) : Prop where
  century : c ≤ 3
  leap : l ≤ 24
  single : s ≤ 3
  day : d ≤ 365
  last : d = 365 → s = 3 ∧ (l = 24 → c = 3)

theorem exists_place (n : Int) : ∃ (cycle : Int) (c l s d : Nat), IsPlace c l s d ∧
    n = epochDay + 146097 * cycle + (36524 * c + 1461 * l + 365 * s + d : Nat) ∧
    ofDayNumber n = ofMarch (400 * cycle + (100 * c + 4 * l + s : Nat)) d := by
  obtain ⟨r, hr⟩ : ∃ r : Nat, (n - epochDay) % 146097 = r := ⟨_, (Int.toNat_of_nonneg (by omega)).symm⟩
  have hlt : r < 146097 := by omega
  obtain ⟨c, hc⟩ : ∃ c, c = min (r / 36524) 3 := ⟨_, rfl⟩
  obtain ⟨l, hl⟩ : ∃ l, l = (r - 36524 * c) / 1461 := ⟨_, rfl⟩
  obtain ⟨q, hq⟩ : ∃ q, q = (r - 36524 * c) % 1461 := ⟨_, rfl⟩
  obtain ⟨s, hs⟩ : ∃ s, s = min (q / 365) 3 := ⟨_, rfl⟩
  refine ⟨(n - epochDay) / 146097, c, l, s, q - 365 * s, ?_, ?_, ?_⟩
  · constructor <;> omega
  · omega
  · simp only [ofDayNumber, ofMarch, hr, Int.toNat_natCast, ← hc, ← hl, ← hq, ← hs]

/-- The month, counted from March, of a day of a year that begins in March. -/
theorem ofMarch_cases (year : Int) {d : Nat} (h : d ≤ 365) :
    ∃ m, daysBeforeMonth m ≤ d ∧ d < daysBeforeMonth (m + 1) ∧
      (m < 10 ∧ ofMarch year d = ⟨year, m + 3, d - daysBeforeMonth m + 1⟩ ∨
        (m = 10 ∨ m = 11) ∧ ofMarch year d = ⟨year + 1, m - 9, d - daysBeforeMonth m + 1⟩) := by
  refine ⟨(5 * d + 2) / 153, ?_, ?_, ?_⟩
  · simp only [daysBeforeMonth]
    omega
  · simp only [daysBeforeMonth]
    omega
  · by_cases hm : (5 * d + 2) / 153 < 10
    · exact .inl ⟨hm, by simp only [ofMarch, if_pos hm]⟩
    · exact .inr ⟨by omega, by simp only [ofMarch, if_neg hm]⟩

variable {c l s d : Nat}

theorem dayNumber_ofMarch (h : IsPlace c l s d) (cycle : Int) :
    (ofMarch (400 * cycle + (100 * c + 4 * l + s : Nat)) d).dayNumber =
      epochDay + 146097 * cycle + (36524 * c + 1461 * l + 365 * s + d : Nat) := by
  obtain ⟨hc, hl, hs, hd, -⟩ := h
  obtain ⟨y, hy⟩ : ∃ y : Nat, y = 100 * c + 4 * l + s := ⟨_, rfl⟩
  have hdays : 365 * (y : Int) + y / 4 - y / 100 = (36524 * c + 1461 * l + 365 * s : Nat) := by omega
  have hcycle : (400 * cycle + (y : Int)) / 400 = cycle := by omega
  have hyear : (400 * cycle + (y : Int)) % 400 = y := by omega
  rw [← hy]
  obtain ⟨m, hbefore, -, ⟨hm, hdate⟩ | ⟨hm, hdate⟩⟩ := ofMarch_cases (400 * cycle + y) hd
  · have hle : ¬ m + 3 ≤ 2 := by omega
    simp only [hdate, dayNumber, if_neg hle, Nat.add_sub_cancel, hcycle, hyear]
    omega
  · have hle : m - 9 ≤ 2 := by omega
    have hmonth : m - 9 + 9 = m := by omega
    simp only [hdate, dayNumber, if_pos hle, hmonth, add_sub_cancel_right, hcycle, hyear]
    omega

/-- The last day of February, if it is the 29th, is in a leap year. -/
theorem isLeapYear_of_last (h : IsPlace c l s d) (hd : d = 365) (cycle : Int) :
    isLeapYear (400 * cycle + (100 * c + 4 * l + s : Nat) + 1) = true := by
  obtain ⟨rfl, hcentury⟩ := h.last hd
  have := h.leap
  have := h.century
  simp only [isLeapYear, decide_eq_true_eq]
  omega

theorem exists_ofMarch (h : IsPlace c l s d) (cycle : Int) :
    (ofMarch (400 * cycle + (100 * c + 4 * l + s : Nat)) d).Exists := by
  have hleap := isLeapYear_of_last h
  obtain ⟨m, hbefore, hafter, ⟨hm, hdate⟩ | ⟨hm, hdate⟩⟩ :=
    ofMarch_cases (400 * cycle + (100 * c + 4 * l + s : Nat)) h.day
  · rw [hdate]
    refine ⟨by simp, by simp only; omega, by simp, ?_⟩
    simp only [daysInMonth]
    have : m + 3 ≠ 2 := by omega
    rw [if_neg this]
    simp only [daysBeforeMonth] at hbefore hafter ⊢
    split_ifs <;> omega
  · rw [hdate]
    refine ⟨by simp only; omega, by simp only; omega, by simp, ?_⟩
    rcases hm with rfl | rfl
    · simp only [daysInMonth, daysBeforeMonth] at hbefore hafter ⊢
      norm_num
      omega
    · by_cases hd : d = 365
      · rw [daysInMonth, if_pos rfl, if_pos (hleap hd cycle), hd]
        exact (by decide : 365 - daysBeforeMonth 11 + 1 ≤ 29)
      · have := h.day
        simp only [daysInMonth, daysBeforeMonth] at hbefore hafter ⊢
        norm_num
        split_ifs <;> omega

theorem dayNumber_ofDayNumber (n : Int) : (ofDayNumber n).dayNumber = n := by
  obtain ⟨cycle, c, l, s, d, hplace, hn, hdate⟩ := exists_place n
  rw [hdate, dayNumber_ofMarch hplace, ← hn]

theorem exists_ofDayNumber (n : Int) : (ofDayNumber n).Exists := by
  obtain ⟨cycle, c, l, s, d, hplace, -, hdate⟩ := exists_place n
  rw [hdate]
  exact exists_ofMarch hplace cycle

/-- The year 10000 begins on day 2932897. -/
theorem year_le_of_dayNumber {date : Date} (h : date.Exists) (hlt : date.dayNumber < 2932897) :
    date.year ≤ 9999 := by
  obtain ⟨hmonth, hmonth', hday, -⟩ := h
  simp only [dayNumber, epochDay, daysBeforeMonth] at hlt
  split_ifs at hlt <;> omega

end Date

/-! ### Times of day -/

/-- The numbers of a time of day are in their ranges. -/
structure Clock.IsValid (t : Clock) : Prop where
  hour : t.hour ≤ 23
  minute : t.minute ≤ 59
  second : t.second ≤ 59
  nanosecond : t.nanosecond < 10 ^ 9

theorem Clock.isValid_midnight : midnight.IsValid := by
  constructor <;> decide

theorem Clock.isValid_ofNanoseconds {n : Nat} (h : n < 86400 * perSecond) :
    (ofNanoseconds n).IsValid := by
  simp only [perSecond] at h
  constructor <;> simp only [ofNanoseconds, perSecond] <;> omega

theorem Clock.seconds_ofNanoseconds (n : Nat) :
    (ofNanoseconds n).seconds * perSecond + (ofNanoseconds n).nanosecond = n := by
  simp only [ofNanoseconds, seconds, perSecond]
  omega

namespace Civil

theorem nanoseconds_ofNanoseconds (n : Int) : (ofNanoseconds n).nanoseconds = n := by
  have hclock := Clock.seconds_ofNanoseconds (n % (86400 * Clock.perSecond)).toNat
  simp only [nanoseconds, ofNanoseconds, Date.dayNumber_ofDayNumber]
  generalize Clock.ofNanoseconds (n % (86400 * Clock.perSecond)).toNat = t at hclock
  simp only [Clock.perSecond] at hclock ⊢
  omega

theorem isValid_clock_ofNanoseconds (n : Int) : (ofNanoseconds n).clock.IsValid := by
  refine Clock.isValid_ofNanoseconds ?_
  simp only [Clock.perSecond]
  omega

/-- A date and time that has a text without a sign. -/
structure IsWritable (c : Civil) : Prop where
  year : 0 ≤ c.date.year ∧ c.date.year ≤ 9999
  date : c.date.Exists
  clock : c.clock.IsValid

end Civil

end ConfigGate
