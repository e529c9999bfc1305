/-!
# The calendar

Dates of the proleptic Gregorian calendar, with a year zero, and the number of days from
1970-01-01 to a date. Days are counted in years that begin in March, so that a leap day is the last
day of its year. Four hundred of these have 146097 days.
-/

namespace ConfigGate

def isLeapYear (year : Int) : Bool := year % 4 = 0 ∧ (year % 100 ≠ 0 ∨ year % 400 = 0)

def daysInMonth (year : Int) (month : Nat) : Nat :=
  if month = 2 then (if isLeapYear year then 29 else 28)
  else if month = 4 ∨ month = 6 ∨ month = 9 ∨ month = 11 then 30
  else 31

structure Date where
  year : Int
  month : Nat
  day : Nat
deriving DecidableEq

namespace Date

/-- The date is one of the calendar. -/
def Exists (d : Date) : Prop :=
  1 ≤ d.month ∧ d.month ≤ 12 ∧ 1 ≤ d.day ∧ d.day ≤ daysInMonth d.year d.month

instance (d : Date) : Decidable d.Exists := inferInstanceAs (Decidable (_ ∧ _ ∧ _ ∧ _))

/-- The day 0000-03-01, counted from 1970-01-01. -/
def epochDay : Int := -719468

/-- The days of a year before a month, both counted from March. -/
def daysBeforeMonth (month : Nat) : Nat := (153 * month + 2) / 5

/-- The number of days from 1970-01-01 to a date. -/
def dayNumber (d : Date) : Int :=
  let marchYear := if d.month ≤ 2 then d.year - 1 else d.year
  let marchMonth := if d.month ≤ 2 then d.month + 9 else d.month - 3
  let cycle := marchYear / 400
  let year := marchYear % 400
  epochDay + 146097 * cycle + 365 * year + year / 4 - year / 100 + daysBeforeMonth marchMonth +
    (d.day - 1)

/-- The date a number of days after 1970-01-01. -/
def ofDayNumber (n : Int) : Date :=
  let cycle := (n - epochDay) / 146097
  let inCycle := ((n - epochDay) % 146097).toNat
  let century := min (inCycle / 36524) 3
  let inCentury := inCycle - 36524 * century
  let leap := inCentury / 1461
  let inLeap := inCentury % 1461
  let single := min (inLeap / 365) 3
  let inYear := inLeap - 365 * single
  let marchMonth := (5 * inYear + 2) / 153
  let year := 400 * cycle + (100 * century + 4 * leap + single : Nat)
  { year := if marchMonth < 10 then year else year + 1
    month := if marchMonth < 10 then marchMonth + 3 else marchMonth - 9
    day := inYear - daysBeforeMonth marchMonth + 1 }

end Date

/-- A time of day. -/
structure Clock where
  hour : Nat
  minute : Nat
  second : Nat
  nanosecond : Nat
deriving DecidableEq

namespace Clock

def midnight : Clock := ⟨0, 0, 0, 0⟩

/-- The nanoseconds of a second. -/
def perSecond : Nat := 1000000000

/-- The seconds since midnight, without their fraction. -/
def seconds (t : Clock) : Nat := 3600 * t.hour + 60 * t.minute + t.second

/-- The time a number of nanoseconds after midnight. -/
def ofNanoseconds (n : Nat) : Clock :=
  let s := n / perSecond
  ⟨s / 3600, s % 3600 / 60, s % 60, n % perSecond⟩

end Clock

/-- A date and a time of day on no particular clock. -/
structure Civil where
  date : Date
  clock : Clock
deriving DecidableEq

namespace Civil

/-- The nanoseconds from the start of 1970-01-01. -/
def nanoseconds (c : Civil) : Int :=
  (86400 * c.date.dayNumber + c.clock.seconds) * Clock.perSecond + c.clock.nanosecond

/-- The date and time a number of nanoseconds after the start of 1970-01-01. -/
def ofNanoseconds (n : Int) : Civil where
  date := .ofDayNumber (n / (86400 * Clock.perSecond))
  clock := .ofNanoseconds (n % (86400 * Clock.perSecond)).toNat

end Civil

end ConfigGate
