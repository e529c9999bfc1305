import Mathlib
import ConfigGate.Proofs.Moment.Calendar

/-!
# Days counted one by one

The calendar by its rules: twelve months with their lengths, and the day that follows a day. A date
is `n` days after 1970-01-01 if so many steps lead to it, forwards or backwards. The number of a
day, which is computed from the cycle of 400 years, is this count (`counted_iff`), so that the dates
of the calendar and the integers correspond.
-/

namespace ConfigGate

/-! ### The rules -/

/-- Every fourth year, but of the years that end a century every fourth again. -/
def IsLeap (year : Int) : Prop := 4 ∣ year ∧ (100 ∣ year → 400 ∣ year)

instance (year : Int) : Decidable (IsLeap year) := inferInstanceAs (Decidable (_ ∧ _))

def monthLengths (year : Int) : List Nat :=
  [31, if IsLeap year then 29 else 28, 31, 30, 31, 30, 31, 31, 30, 31, 30, 31]

namespace Date

structure InCalendar (d : Date) : Prop where
  month : 1 ≤ d.month
  day : 1 ≤ d.day
  length : ∃ n ∈ (monthLengths d.year)[d.month - 1]?, d.day ≤ n

/-- The day after. -/
def next (d : Date) : Date :=
  if (monthLengths d.year)[d.month - 1]? = some d.day then
    if d.month = 12 then ⟨d.year + 1, 1, 1⟩ else ⟨d.year, d.month + 1, 1⟩
  else ⟨d.year, d.month, d.day + 1⟩

/-- The date is `n` days after 1970-01-01. -/
inductive Counted : Int → Date → Prop where
  | epoch : Counted 0 ⟨1970, 1, 1⟩
  | after {n : Int} {d : Date} (h : Counted n d) : Counted (n + 1) d.next
  | before {n : Int} {d : Date} (hd : d.InCalendar) (h : Counted (n + 1) d.next) : Counted n d

/-! ### Lengths of months -/

theorem isLeapYear_iff {year : Int} : isLeapYear year = true ↔ IsLeap year := by
  simp only [isLeapYear, IsLeap, decide_eq_true_eq]
  omega

theorem monthLengths_get {year : Int} {month : Nat} (h : 1 ≤ month ∧ month ≤ 12) :
    (monthLengths year)[month - 1]? = some (daysInMonth year month) := by
  obtain ⟨hlow, hhigh⟩ := h
  interval_cases month <;> simp [monthLengths, daysInMonth, isLeapYear_iff]

theorem inCalendar_iff {d : Date} : d.InCalendar ↔ d.Exists := by
  constructor
  · rintro ⟨hmonth, hday, n, hn, hle⟩
    have hmonth' : d.month ≤ 12 := by
      have := (List.getElem?_eq_some_iff.1 hn).1
      simp only [monthLengths, List.length_cons, List.length_nil] at this
      omega
    rw [monthLengths_get ⟨hmonth, hmonth'⟩] at hn
    cases hn
    exact ⟨hmonth, hmonth', hday, hle⟩
  · rintro ⟨hmonth, hmonth', hday, hle⟩
    exact ⟨hmonth, hday, _, monthLengths_get ⟨hmonth, hmonth'⟩, hle⟩

instance (d : Date) : Decidable d.InCalendar := decidable_of_iff d.Exists inCalendar_iff.symm

theorem one_le_daysInMonth (year : Int) (month : Nat) : 1 ≤ daysInMonth year month := by
  simp only [daysInMonth]
  split_ifs <;> decide

theorem next_eq {d : Date} (h : d.Exists) : d.next =
    if d.day = daysInMonth d.year d.month then
      if d.month = 12 then ⟨d.year + 1, 1, 1⟩ else ⟨d.year, d.month + 1, 1⟩
    else ⟨d.year, d.month, d.day + 1⟩ := by
  rw [next, monthLengths_get ⟨h.1, h.2.1⟩]
  simp only [Option.some.injEq, eq_comm]

theorem Exists.next {d : Date} (h : d.Exists) : d.next.Exists := by
  have hnext := next_eq h
  obtain ⟨hmonth, hmonth', hday, hlast⟩ := h
  rw [hnext]
  split_ifs with hend hyear
  · exact ⟨by simp, by simp, by simp, one_le_daysInMonth _ _⟩
  · exact ⟨by simp, by simp only; omega, by simp, one_le_daysInMonth _ _⟩
  · exact ⟨hmonth, hmonth', by simp, by simp only; omega⟩

/-! ### Months one after the other -/

/-- The days of the years from zero up to `year`, which begin in March. -/
def marchDays (year : Int) : Int := 365 * year + year / 4 - year / 100 + year / 400

theorem marchDays_eq (year : Int) :
    marchDays year = marchDays (year - 1) + if isLeapYear year then 366 else 365 := by
  have h4 : year / 4 = (year - 1) / 4 + if 4 ∣ year then 1 else 0 := by split_ifs <;> omega
  have h100 : year / 100 = (year - 1) / 100 + if 100 ∣ year then 1 else 0 := by split_ifs <;> omega
  have h400 : year / 400 = (year - 1) / 400 + if 400 ∣ year then 1 else 0 := by split_ifs <;> omega
  simp only [marchDays, isLeapYear_iff, IsLeap]
  split_ifs at * <;> omega

theorem dayNumber_eq (d : Date) : d.dayNumber = epochDay + (d.day - 1) +
    if d.month ≤ 2 then marchDays (d.year - 1) + daysBeforeMonth (d.month + 9)
    else marchDays d.year + daysBeforeMonth (d.month - 3) := by
  have hcycle : ∀ year : Int, 146097 * (year / 400) + 365 * (year % 400) + year % 400 / 4 -
      year % 400 / 100 = marchDays year := by
    intro year
    simp only [marchDays]
    omega
  simp only [dayNumber, ← hcycle]
  split_ifs <;> ring

theorem dayNumber_day (year : Int) (month day : Nat) :
    dayNumber ⟨year, month, day⟩ = dayNumber ⟨year, month, 1⟩ + (day - 1) := by
  rw [dayNumber_eq, dayNumber_eq]
  ring

theorem dayNumber_month (year : Int) {month : Nat} (h : 1 ≤ month ∧ month ≤ 11) :
    dayNumber ⟨year, month + 1, 1⟩ = dayNumber ⟨year, month, 1⟩ + daysInMonth year month := by
  have hfebruary := marchDays_eq year
  obtain ⟨hlow, hhigh⟩ := h
  rw [dayNumber_eq, dayNumber_eq]
  -- Only the step out of February leads from one year to the next, and meets a leap day.
  interval_cases month <;> simp [daysBeforeMonth, daysInMonth] <;> split_ifs at * <;> omega

theorem dayNumber_year (year : Int) :
    dayNumber ⟨year + 1, 1, 1⟩ = dayNumber ⟨year, 12, 1⟩ + daysInMonth year 12 := by
  rw [dayNumber_eq, dayNumber_eq]
  simp only [daysBeforeMonth, daysInMonth]
  norm_num
  ring

theorem dayNumber_next {d : Date} (h : d.Exists) : d.next.dayNumber = d.dayNumber + 1 := by
  have hnext := next_eq h
  obtain ⟨year, month, day⟩ := d
  obtain ⟨hlow, hhigh, -, -⟩ := h
  rw [hnext, dayNumber_day year month day]
  split_ifs with hend hyear
  · simp only at hend hyear
    rw [hend, hyear, dayNumber_year]
    ring
  · simp only at hend hyear hlow hhigh
    rw [hend, dayNumber_month year ⟨hlow, by omega⟩]
    ring
  · rw [dayNumber_day year month (day + 1)]
    push_cast
    ring

/-- The number of the first day of a month. Months are counted from January of the year zero. -/
def monthStart (k : Int) : Int := dayNumber ⟨k / 12, (k % 12).toNat + 1, 1⟩

theorem monthStart_succ (k : Int) :
    monthStart (k + 1) = monthStart k + daysInMonth (k / 12) ((k % 12).toNat + 1) := by
  by_cases h : k % 12 = 11
  · have hyear : (k + 1) / 12 = k / 12 + 1 := by omega
    have hmonth : (k + 1) % 12 = 0 := by omega
    rw [monthStart, monthStart, hyear, hmonth, h]
    exact dayNumber_year (k / 12)
  · have hyear : (k + 1) / 12 = k / 12 := by omega
    have hmonth : ((k + 1) % 12).toNat = (k % 12).toNat + 1 := by omega
    rw [monthStart, monthStart, hyear, hmonth]
    exact dayNumber_month (k / 12) ⟨by omega, by omega⟩

theorem monthStart_strictMono : StrictMono monthStart := by
  refine strictMono_int_of_lt_succ fun k => ?_
  have := one_le_daysInMonth (k / 12) ((k % 12).toNat + 1)
  rw [monthStart_succ]
  omega

/-- A date lies between the first day of its month and that of the next. -/
theorem Exists.dayNumber_bounds {d : Date} (h : d.Exists) :
    d.dayNumber = monthStart (12 * d.year + (d.month - 1)) + (d.day - 1) ∧
      d.dayNumber < monthStart (12 * d.year + (d.month - 1) + 1) := by
  obtain ⟨year, month, day⟩ := d
  obtain ⟨hlow, hhigh, hday, hlast⟩ := h
  simp only at hlow hhigh hday hlast ⊢
  have hyear : (12 * year + ((month : Int) - 1)) / 12 = year := by omega
  have hmonth : ((12 * year + ((month : Int) - 1)) % 12).toNat + 1 = month := by omega
  rw [monthStart_succ, monthStart, hyear, hmonth, dayNumber_day]
  refine ⟨rfl, ?_⟩
  omega

theorem dayNumber_injective {d e : Date} (hd : d.Exists) (he : e.Exists)
    (h : d.dayNumber = e.dayNumber) : d = e := by
  obtain ⟨hd₁, hd₂⟩ := hd.dayNumber_bounds
  obtain ⟨he₁, he₂⟩ := he.dayNumber_bounds
  obtain ⟨year, month, day⟩ := d
  obtain ⟨year', month', day'⟩ := e
  obtain ⟨hlow, hhigh, hday, -⟩ := hd
  obtain ⟨hlow', hhigh', hday', -⟩ := he
  simp only at hd₁ hd₂ he₁ he₂ hlow hhigh hday hlow' hhigh' hday'
  have hle : 12 * year + ((month : Int) - 1) < 12 * year' + ((month' : Int) - 1) + 1 :=
    monthStart_strictMono.lt_iff_lt.1 (by omega)
  have hge : 12 * year' + ((month' : Int) - 1) < 12 * year + ((month : Int) - 1) + 1 :=
    monthStart_strictMono.lt_iff_lt.1 (by omega)
  obtain rfl : year = year' := by omega
  obtain rfl : month = month' := by omega
  obtain rfl : day = day' := by omega
  rfl

/-! ### The count -/

theorem next_ofDayNumber (n : Int) : (ofDayNumber n).next = ofDayNumber (n + 1) := by
  have hn := exists_ofDayNumber n
  refine dayNumber_injective hn.next (exists_ofDayNumber (n + 1)) ?_
  rw [dayNumber_next hn, dayNumber_ofDayNumber, dayNumber_ofDayNumber]

theorem counted_ofDayNumber (n : Int) : Counted n (ofDayNumber n) := by
  have hepoch : ofDayNumber 0 = ⟨1970, 1, 1⟩ := by decide
  induction n using Int.induction_on with
  | zero =>
    rw [hepoch]
    exact .epoch
  | succ n ih =>
    rw [← next_ofDayNumber]
    exact .after ih
  | pred n ih =>
    refine .before (inCalendar_iff.2 (exists_ofDayNumber _)) ?_
    rwa [next_ofDayNumber, Int.sub_add_cancel]

theorem counted_iff {n : Int} {d : Date} : Counted n d ↔ d.Exists ∧ d.dayNumber = n := by
  constructor
  · intro h
    induction h with
    | epoch => decide
    | after _ ih =>
      obtain ⟨hd, rfl⟩ := ih
      exact ⟨hd.next, dayNumber_next hd⟩
    | before hd _ ih =>
      have hd := inCalendar_iff.1 hd
      have hnumber := ih.2
      rw [dayNumber_next hd] at hnumber
      exact ⟨hd, by omega⟩
  · rintro ⟨hd, rfl⟩
    have heq := dayNumber_injective hd (exists_ofDayNumber _) (dayNumber_ofDayNumber _).symm
    have h := counted_ofDayNumber d.dayNumber
    rwa [← heq] at h

end Date

end ConfigGate
