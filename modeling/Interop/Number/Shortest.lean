import Interop.Number.Decimal

/-!
# The shortest decimal of a binary number

The rationals that round to a given binary number form an interval around it. Its shortest decimal
is the one on the coarsest power-of-ten grid that meets the interval; where two points of that grid
lie inside, it is the nearer one, and of two equally near ones the greater.

* `Binary.rounding`: the interval. Its ends belong to it iff the magnitude is even.
* `Binary.shortest`: the decimal.
-/

namespace Interop

/-- A bounded interval of rationals, with both of its ends or with neither. -/
structure Interval where
  low : Rat
  high : Rat
  closed : Bool

def Interval.contains (i : Interval) (x : Rat) : Bool :=
  if i.closed then i.low ≤ x && x ≤ i.high else i.low < x && x < i.high

/-- The point of the grid of multiples of `10 ^ exponent` that lies in the interval and is one of
the two neighbours of `x`. -/
def Interval.onGrid? (i : Interval) (x : Rat) (exponent : Int) : Option Decimal :=
  let unit := (10 : Rat) ^ exponent
  let below := (x / unit).floor.toNat
  let above := below + 1
  let isAboveNearer := i.contains (above * unit) && above * unit - x ≤ x - below * unit
  if i.contains (below * unit) && !isAboveNearer then some ⟨below, exponent⟩
  else if i.contains (above * unit) then some ⟨above, exponent⟩
  else none

/-- The first hit on a grid, from `exponent` downwards. -/
def Interval.coarsest (i : Interval) (x : Rat) : Nat → Int → Decimal
  | 0, exponent => ⟨(x / (10 : Rat) ^ exponent).floor.toNat, exponent⟩
  | fuel + 1, exponent =>
    match i.onGrid? x exponent with
    | some d => d
    | none => i.coarsest x fuel (exponent - 1)

namespace Binary

variable {f : Format}

/-- The rationals that round to the absolute value of a nonzero finite number: up to half of the
way to its neighbours. -/
def rounding (x : Binary f) : Interval where
  low := (magnitudeValue f (x.magnitude - 1) + x.absValue) / 2
  high := (x.absValue + magnitudeValue f (x.magnitude + 1)) / 2
  closed := x.magnitude % 2 = 0

/-- The shortest decimal that rounds to the absolute value of a nonzero finite number. The search
takes far fewer steps than its bound: a grid finer than the interval is wide always has a point in
it. -/
def shortest (x : Binary f) : Decimal :=
  x.rounding.coarsest x.absValue (f.fractionBits + 4) (floorLog10 x.absValue + 1)

end Binary

end Interop
