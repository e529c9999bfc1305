import ConfigGate.Decimal.Shortest

/-!
# Layout of decimals

A `Layout` says which decimals are written positionally and how an exponent looks. A positional
decimal has digits on both sides of the point.
-/

namespace ConfigGate

structure Layout where
  /-- Exponents from here on are positional. -/
  plainFrom : Int
  /-- Exponents from here on are not positional any more. -/
  plainBelow : Int
  /-- Whether a plus sign stands before an exponent that is not negative. -/
  exponentPlus : Bool
  /-- The least number of digits of an exponent. -/
  exponentWidth : Nat
  tie : Tie

namespace Scientific

/-- Digits around a point. -/
def positional (d : Scientific) : List Char :=
  let ds := d.digits.map Digit.char
  if d.exponent < 0 then
    ['0', '.'] ++ List.replicate ((-d.exponent).toNat - 1) '0' ++ ds
  else
    let whole := d.exponent.toNat + 1
    if ds.length ≤ whole then ds ++ List.replicate (whole - ds.length) '0' ++ ['.', '0']
    else ds.take whole ++ ['.'] ++ ds.drop whole

/-- The digits, with a point after the first if more follow. -/
def mantissa (d : Scientific) : List Char :=
  match d.digits.map Digit.char with
  | [] => []
  | [c] => [c]
  | c :: cs => c :: '.' :: cs

/-- The exponent, with its sign and its zeros. -/
def exponentText (layout : Layout) (e : Int) : List Char :=
  let sign := if e < 0 then ['-'] else if layout.exponentPlus then ['+'] else []
  sign ++ paddedText layout.exponentWidth e.natAbs

def render (layout : Layout) (d : Scientific) : List Char :=
  if layout.plainFrom ≤ d.exponent ∧ d.exponent < layout.plainBelow then d.positional
  else d.mantissa ++ ['e'] ++ exponentText layout d.exponent

end Scientific

/-- A signed magnitude as text. -/
def Magnitude.render (layout : Layout) (negative : Bool) (x : Magnitude) : List Char :=
  (if negative then ['-'] else []) ++
    if x.isZero then ['0', '.', '0'] else (Scientific.ofMagnitude layout.tie x).render layout

end ConfigGate
