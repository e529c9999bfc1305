import ConfigGate.Binary64.Basic
import ConfigGate.Moment.Fault

/-!
# Unix numbers

A number is the seconds from the start of 1970, or the milliseconds if its magnitude is above
2 * 10^10. It is multiplied in binary64 and rounded to whole nanoseconds, a half away from zero.
-/

namespace ConfigGate

/-- The nearest natural number, a half going up. -/
def Magnitude.round (x : Magnitude) : Nat := (2 * x.units + perOne) / (2 * perOne)

namespace Unix

/-- Numbers with a larger magnitude are milliseconds. -/
def millisecondsAbove : Nat := 20000000000

/-- The nanoseconds in the unit of a number. -/
def unit (x : Magnitude) : Nat :=
  if millisecondsAbove * Magnitude.perOne < x.units then 1000000 else 1000000000

/-- The nanoseconds of a number, none if they overflow. -/
def nanoseconds? (negative : Bool) (x : Magnitude) : Option Int := do
  let product ← x.mul? (← Magnitude.ofNat? (unit x))
  let n : Int := product.round
  some (if negative then -n else n)

/-- The fault of a number of nanoseconds that is out of range. Whole seconds are looked at first,
and those that do not fit 64 bits are not looked at further. -/
def rangeFault (n : Int) : Moment.Fault :=
  let seconds := n.tdiv Clock.perSecond
  if -0x8000000000000000 ≤ seconds ∧ seconds < 0x8000000000000000 then .unixSeconds
  else .unixNanoseconds

/-- The instant at a number of nanoseconds, which are none if they overflow. -/
def instantAt : Option Int → Except Moment.Fault Instant
  | none => .error .unixNanoseconds
  | some n =>
    match Instant.ofNanoseconds? n with
    | some t => .ok t
    | none => .error (rangeFault n)

/-- The instant of a number. -/
def instant : Binary64 → Except Moment.Fault Instant
  | .finite negative x => instantAt (nanoseconds? negative x)
  | _ => .error .unixNanoseconds

end Unix

end ConfigGate
