import ConfigGate.Decimal.NumericText
import ConfigGate.Moment.Parse
import ConfigGate.Moment.Unix

/-!
# Moments from text and numbers

A text that is a finite number is a unix number, whatever else it could be. Any other text is read
as a written moment: with an offset it is an instant, without one it stays civil.
-/

namespace ConfigGate

/-- The meaning of a written moment. One whose offset leads out of range is civil, unless it is in
UTC already. -/
def Written.moment (w : Written) : Except Moment.Fault Moment :=
  match w.instant? with
  | some t => .ok (.instant t)
  | none => if w.offset = some .zulu then .error .zulu else .ok (.civil w.civil)

namespace Moment

/-- Forms that are refused: a sign in front of the year, or a zone in brackets. -/
def isUnsupported (s : List Char) : Bool :=
  s.head? = some '+' || s.head? = some '-' || s.contains '['

/-- The moment of a unix number. -/
def ofUnix (x : Binary64) : Except Fault Moment := (Unix.instant x).map .instant

/-- The moment of a text that is not a number. -/
def ofWords (s : List Char) : Except Fault Moment :=
  if isUnsupported s then .error .unsupported
  else do (← Written.parse s).moment

/-- The moment that a text stands for. -/
def parse (s : List Char) : Except Fault Moment :=
  match NumericText.read? s with
  | some (.finite negative x) => ofUnix (.finite negative x)
  | _ => ofWords s

end Moment

end ConfigGate
