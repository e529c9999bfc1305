import ConfigGate.Moment.Written
import ConfigGate.Text.Visible

/-!
# Faults of moments

Why a text or a number is not a moment. Numbers of a fixed width are components, each with its range
and its name in messages.
-/

namespace ConfigGate.Moment

/-- A number of fixed width in the text of a moment. -/
inductive Component where
  | year
  | month
  | day
  | hour
  | minute
  | second
  | offsetHours
  | offsetMinutes
  | offsetSeconds
deriving DecidableEq

namespace Component

/-- How many digits a component has. -/
def width : Component → Nat
  | year => 4
  | _ => 2

/-- The numbers that a component may be, both included. -/
def bounds : Component → Nat × Nat
  | year => (0, 9999)
  | month => (1, 12)
  | day => (1, 31)
  | hour => (0, 23)
  | minute => (0, 59)
  | second => (0, 60)
  | offsetHours => (0, 25)
  | offsetMinutes => (0, 59)
  | offsetSeconds => (0, 59)

def name : Component → String
  | year => "year"
  | month => "month"
  | day => "day"
  | hour => "hour"
  | minute => "minute"
  | second => "second"
  | offsetHours => "time zone offset hours"
  | offsetMinutes => "time zone offset minutes"
  | offsetSeconds => "time zone offset seconds"

/-- The range in messages. Those of an offset count both signs. -/
def rangeText (c : Component) : List Char :=
  let (lo, hi) := c.bounds
  let least : Int :=
    match c with
    | year | offsetHours | offsetMinutes | offsetSeconds => -hi
    | _ => lo
  integerText least ++ "..=".toList ++ decimalText hi

/-- What stands before every reason about an offset's component. -/
def area : Component → String
  | offsetHours => "failed to parse hours in UTC numeric offset: "
  | offsetMinutes => "failed to parse minutes in UTC numeric offset: "
  | offsetSeconds => "failed to parse seconds in UTC numeric offset: "
  | _ => ""

/-- The reason for a text that ends too early. -/
def endText : Component → String
  | year => "expected four digit year (or leading sign for six digit year), but found end of input"
  | month => "expected two digit month, but found end of input"
  | day => "expected two digit day, but found end of input"
  | hour => "expected two digit hour, but found end of input"
  | minute => "expected two digit minute, but found end of input"
  | second => "expected two digit second, but found end of input"
  | offsetHours => "expected two digit hour after sign, but found end of input"
  | offsetMinutes => "expected two digit minute after hours, but found end of input"
  | offsetSeconds => "expected two digit second after minutes, but found end of input"

/-- What stands before the reason for a wrong number. -/
def numberText : Component → String
  | year => "failed to parse four digit integer as year: "
  | month => "failed to parse two digit integer as month: "
  | day => "failed to parse two digit integer as day: "
  | hour => "failed to parse two digit integer as hour: "
  | minute => "failed to parse two digit integer as minute: "
  | second => "failed to parse two digit integer as second: "
  | offsetHours => "failed to parse hours (requires a two digit integer): "
  | offsetMinutes => "failed to parse minutes (requires a two digit integer): "
  | offsetSeconds => "failed to parse seconds (requires a two digit integer): "

end Component

inductive Fault where
  /-- A sign in front or a bracket inside. -/
  | unsupported
  | ended (c : Component)
  | notDigit (c : Component) (found : UInt8)
  | outOfRange (c : Component)
  | noDaySeparator (found : Option UInt8)
  | unexpectedDaySeparator
  | noSuchDay (year : Int) (month : Nat)
  | noClockFraction
  | noOffsetFraction
  | leftover (parsed : Written) (rest : List Char)
  /-- An instant in UTC that is out of range. -/
  | zulu
  | unixNanoseconds
  | unixSeconds
deriving DecidableEq

namespace Fault

def noFractionText : String :=
  "found decimal after seconds component, but did not find any digits after decimal"

def daySeparatorText : String := "failed to parse separator after month: "

/-- What a fault is reported as. -/
def message : Fault → List Char
  | unsupported => "unsupported date-time form".toList
  | ended c => c.area.toList ++ c.endText.toList
  | notDigit c found =>
    c.area.toList ++ c.numberText.toList ++ "invalid digit, expected 0-9 but got ".toList ++
      Text.visibleByte found
  | outOfRange c =>
    c.area.toList ++ c.numberText.toList ++ "parameter '".toList ++ c.name.toList ++
      "' is not in the required range of ".toList ++ c.rangeText
  | noDaySeparator (some found) =>
    daySeparatorText.toList ++ "expected `-` separator, but found `".toList ++
      Text.visibleByte found ++ "`".toList
  | noDaySeparator none =>
    daySeparatorText.toList ++ "expected `-` separator, but found end of input".toList
  | unexpectedDaySeparator =>
    daySeparatorText.toList ++
      "expected no separator since none was found after the year, but found a `-` separator".toList
  | noSuchDay year month =>
    "parsed date is not valid: parameter 'day' for `".toList ++ yearText year ++
      '-' :: paddedText 2 month ++ "` is invalid, must be in range `1..=".toList ++
      decimalText (daysInMonth year month) ++ "`".toList
  | noClockFraction =>
    "failed to parse fractional seconds in time: ".toList ++ noFractionText.toList
  | noOffsetFraction =>
    "failed to parse fractional seconds in UTC numeric offset: ".toList ++ noFractionText.toList
  | leftover parsed rest =>
    "parsed value '".toList ++ parsed.text ++ "', but unparsed input \"".toList ++
      rest.flatMap Text.visibleChar ++ "\" remains (expected no unparsed input)".toList
  | zulu =>
    "cannot parse civil date/time from string with a Zulu offset, ".toList ++
      "parse as a `jiff::Timestamp` first and convert to a civil date/time instead".toList
  | unixNanoseconds =>
    "parameter 'Unix timestamp nanoseconds' is not in the required range of ".toList ++
      "-377705023201000000000..=253402207200000000000".toList
  | unixSeconds =>
    "parameter 'Unix timestamp seconds' is not in the required range of ".toList ++
      "-377705023201..=253402207200".toList

end Fault

end ConfigGate.Moment
