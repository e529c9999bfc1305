import ConfigGate.Moment.Basic

/-!
# Written moments

What the text of a moment says before it is given a meaning: a date, perhaps a time, perhaps the
offset of its zone.
-/

namespace ConfigGate

/-- The offset of a zone from UTC. Minutes and seconds may be left out. -/
inductive Offset where
  | zulu
  | numeric (negative : Bool) (hours : Nat) (minutes seconds : Option Nat) (nanosecond : Nat)
deriving DecidableEq

structure Written where
  date : Date
  clock : Option Clock
  offset : Option Offset
deriving DecidableEq

namespace Offset

/-- The offset in whole seconds, a half and more counted as one. -/
def seconds : Offset → Int
  | zulu => 0
  | numeric negative hours minutes seconds nanosecond =>
    let carry := if 500000000 ≤ nanosecond then 1 else 0
    let total := 3600 * hours + 60 * minutes.getD 0 + seconds.getD 0 + carry
    if negative then -(total : Int) else total

/-- The offset is less than 26 hours either way. -/
def isUsable (o : Offset) : Bool := o.seconds.natAbs < 26 * 3600

def text : Offset → List Char
  | zulu => ['Z']
  | numeric negative hours minutes seconds nanosecond =>
    let part (n : Option Nat) : List Char := n.elim [] fun n => ':' :: paddedText 2 n
    (if negative then '-' else '+') :: paddedText 2 hours ++ part minutes ++ part seconds ++
      fractionText nanosecond

end Offset

namespace Written

/-- The date and time, midnight if no time is given. -/
def civil (w : Written) : Civil := ⟨w.date, w.clock.getD .midnight⟩

/-- The instant that a date and time with an offset denotes. -/
def instant? (w : Written) : Option Instant :=
  match w.offset with
  | none => none
  | some o =>
    if o.isUsable then
      Instant.ofNanoseconds? (w.civil.nanoseconds - o.seconds * Clock.perSecond)
    else
      none

/-- The date, time and offset as they were understood. -/
def text (w : Written) : List Char :=
  w.date.text ++ (w.clock.elim [] fun t => 'T' :: t.text) ++ w.offset.elim [] Offset.text

end Written

end ConfigGate
