import ConfigGate.Decimal.Numeral
import ConfigGate.Moment.Fault
import ConfigGate.Text.Bytes

/-!
# Reading written moments

`Written.parse` reads a date, and behind a separator a time with an optional offset. Date, time and
offset are each either extended, with marks between their components, or basic, without any. The
first mark decides.
-/

namespace ConfigGate.Moment

/-- A reader of something at the start of a text, with what follows it. -/
abbrev Reader (α : Type) := List Char → Except Fault (α × List Char)

namespace Parse

/-- Exactly `k` digits, or the first character that is none. -/
def digits : (k : Nat) → List Char → Except Char (List Digit × List Char)
  | 0, s => .ok ([], s)
  | _ + 1, [] => .ok ([], [])
  | k + 1, c :: s =>
    match Digit.ofChar? c with
    | some d => (digits k s).map fun (ds, r) => (d :: ds, r)
    | none => .error c

/-- A component in its range. -/
def component (c : Component) : Reader Nat := fun s =>
  if Text.byteCount s < c.width then .error (.ended c)
  else
    match digits c.width s with
    | .error found => .error (.notDigit c (Text.leadByte found))
    | .ok (ds, r) =>
      let n := Digits.value ds
      if c.bounds.1 ≤ n ∧ n ≤ c.bounds.2 then .ok (n, r) else .error (.outOfRange c)

/-- Takes `mark` if it comes next. -/
def mark (mark : Char) : List Char → Bool × List Char
  | c :: s => if c = mark then (true, s) else (false, c :: s)
  | [] => (false, [])

/-! ### The date -/

/-- What stands between month and day. -/
def daySeparator (extended : Bool) : Reader Unit
  | [] => if extended then .error (.noDaySeparator none) else .ok ((), [])
  | c :: s =>
    if extended then
      if c = '-' then .ok ((), s) else .error (.noDaySeparator (some (Text.leadByte c)))
    else
      if c = '-' then .error .unexpectedDaySeparator else .ok ((), c :: s)

def date : Reader Date := fun s => do
  let (year, s) ← component .year s
  let (extended, s) := mark '-' s
  let (month, s) ← component .month s
  let ((), s) ← daySeparator extended s
  let (day, s) ← component .day s
  let date : Date := ⟨year, month, day⟩
  if date.Exists then .ok (date, s) else .error (.noSuchDay year month)

/-! ### Optional components -/

/-- Whether two digits come next. -/
def startsWithTwoDigits : List Char → Bool
  | a :: b :: _ => (Digit.ofChar? a).isSome && (Digit.ofChar? b).isSome
  | _ => false

/-- A component that follows a colon, or in the basic form two digits. -/
def further (extended : Bool) (c : Component) : Reader (Option Nat) := fun s =>
  if extended then
    match mark ':' s with
    | (true, r) => (component c r).map fun (n, r) => (some n, r)
    | (false, r) => .ok (none, r)
  else if startsWithTwoDigits s then
    (component c s).map fun (n, r) => (some n, r)
  else
    .ok (none, s)

/-- Two components, the second only after the first. -/
def furtherTwo (c d : Component) : Reader (Option Nat × Option Nat) := fun s => do
  let extended := (mark ':' s).1
  match ← further extended c s with
  | (none, s) => .ok ((none, none), s)
  | (some m, s) =>
    let (n, s) ← further extended d s
    .ok ((some m, n), s)

/-- The nanoseconds of a fraction of a second. -/
def nanosecondsOf (ds : List Digit) : Nat := Digits.value ds * Nat.pow 10 (9 - ds.length)

/-- A fraction of a second of one to nine digits, if there is a point or comma. -/
def fraction (fault : Fault) : Reader Nat
  | [] => .ok (0, [])
  | c :: s =>
    if c = '.' ∨ c = ',' then
      let ds := (Digits.scan s).1.take 9
      if ds = [] then .error fault else .ok (nanosecondsOf ds, s.drop ds.length)
    else
      .ok (0, c :: s)

/-- A fraction of a second that is there. -/
def fractionOf (fault : Fault) (second : Option Nat) : Reader Nat := fun s =>
  if second.isSome then fraction fault s else .ok (0, s)

/-! ### The time and its offset -/

/-- A time of day. A leap second is taken for the second before it. -/
def clock : Reader Clock := fun s => do
  let (hour, s) ← component .hour s
  let ((minute, second), s) ← furtherTwo .minute .second s
  let (nanosecond, s) ← fractionOf .noClockFraction second s
  .ok (⟨hour, minute.getD 0, min (second.getD 0) 59, nanosecond⟩, s)

/-- A numeric offset behind its sign. -/
def numericOffset (negative : Bool) : Reader Offset := fun s => do
  let (hours, s) ← component .offsetHours s
  let ((minutes, seconds), s) ← furtherTwo .offsetMinutes .offsetSeconds s
  let (nanosecond, s) ← fractionOf .noOffsetFraction seconds s
  .ok (.numeric negative hours minutes seconds nanosecond, s)

def offset : Reader (Option Offset)
  | [] => .ok (none, [])
  | c :: s =>
    if c = 'Z' ∨ c = 'z' then .ok (some .zulu, s)
    else if c = '+' ∨ c = '-' then
      (numericOffset (c = '-') s).map fun (o, r) => (some o, r)
    else
      .ok (none, c :: s)

/-- What follows a date. -/
def afterDate (date : Date) : Reader Written
  | [] => .ok (⟨date, none, none⟩, [])
  | c :: s =>
    if c = 'T' ∨ c = 't' ∨ c = ' ' then do
      let (clock, s) ← clock s
      let (offset, s) ← offset s
      .ok (⟨date, some clock, offset⟩, s)
    else
      .ok (⟨date, none, none⟩, c :: s)

end Parse

end ConfigGate.Moment

namespace ConfigGate

/-- Reads a text that is one written moment. -/
def Written.parse (s : List Char) : Except Moment.Fault Written := do
  let (date, s) ← Moment.Parse.date s
  match ← Moment.Parse.afterDate date s with
  | (w, []) => .ok w
  | (w, rest) => .error (.leftover w rest)

end ConfigGate
