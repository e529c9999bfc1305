import ConfigGate.Digits
import ConfigGate.Moment.Calendar

/-!
# Moments

A moment is an instant, given by nanoseconds from the start of 1970 in UTC, or a civil date and time
without a zone. Both have a text: an instant is shown in UTC and ends in `Z`.
-/

namespace ConfigGate

/-- A point in time. The range leaves room for every offset around the years -9999 to 9999. -/
structure Instant where
  nanoseconds : Int
  inRange : -377705023201000000000 ≤ nanoseconds ∧ nanoseconds < 253402207201000000000
deriving DecidableEq

inductive Moment where
  | instant (t : Instant)
  | civil (c : Civil)
deriving DecidableEq

/-- The instant at a number of nanoseconds, if it is in range. -/
def Instant.ofNanoseconds? (n : Int) : Option Instant :=
  if h : -377705023201000000000 ≤ n ∧ n < 253402207201000000000 then some ⟨n, h⟩ else none

/-- Four digits, or a minus sign and six. -/
def yearText (year : Int) : List Char :=
  if year < 0 then '-' :: paddedText 6 year.natAbs else paddedText 4 year.natAbs

/-- A point and the digits of a fraction of a second up to the last that is not zero, or nothing. -/
def fractionText (nanosecond : Nat) : List Char :=
  let ds := Digits.dropZeros (Digits.fixed Digit.base_pos 9 nanosecond)
  if ds = [] then [] else '.' :: ds.map Digit.char

def Date.text (d : Date) : List Char :=
  yearText d.year ++ '-' :: paddedText 2 d.month ++ '-' :: paddedText 2 d.day

def Clock.text (t : Clock) : List Char :=
  paddedText 2 t.hour ++ ':' :: paddedText 2 t.minute ++ ':' :: paddedText 2 t.second ++
    fractionText t.nanosecond

def Civil.text (c : Civil) : List Char := c.date.text ++ 'T' :: c.clock.text

def Instant.text (t : Instant) : List Char := (Civil.ofNanoseconds t.nanoseconds).text ++ ['Z']

def Moment.text : Moment → List Char
  | instant t => t.text
  | civil c => c.text

end ConfigGate
