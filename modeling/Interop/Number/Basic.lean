import Interop.Number.Shortest

/-!
# Script numbers

A script number is a 64-bit integer or a double. Each reads as the other: an integer as the nearest
double, a double as its integer part within 64 bits.

* `Number.text`: the written form. A double without a fraction keeps one decimal as long as its
  absolute value is below `10 ^ 16`; every other finite double is written with its shortest digits
  and never with an exponent.
-/

namespace Interop

inductive Number where
  | integer (value : Int64)
  | float (value : Double)
  deriving DecidableEq

namespace Number

def isInteger : Number → Bool
  | integer _ => true
  | float _ => false

def toDouble : Number → Double
  | integer i => .ofInt .double i.toInt
  | float x => x

/-- The integer part, brought into the range of 64 bits; that of a NaN is zero. -/
def toInt64 : Number → Int64
  | integer i => i
  | float x => x.toInt64

end Number

/-! ## Written forms -/

/-- Digits without an exponent: zeros fill the places up to the point on either side of it. -/
def Decimal.positional (d : Decimal) : String :=
  let digits := Nat.toDigits 10 d.coefficient
  if 0 ≤ d.exponent then String.ofList (digits ++ List.replicate d.exponent.toNat '0')
  else
    let places := (-d.exponent).toNat
    let padded := List.replicate (places + 1 - digits.length) '0' ++ digits
    String.ofList (padded.take (padded.length - places)) ++ "." ++
      String.ofList (padded.drop (padded.length - places))

/-- The bound from which doubles without a fraction are written without a decimal. -/
def plainFrom : Rat := 10000000000000000

def Binary.text (x : Double) : String :=
  if x.isNaN then "nan"
  else
    let magnitude :=
      if x.isInfinite then "inf"
      else if x.isIntegral && x.absValue < plainFrom then toString x.absValue.floor ++ ".0"
      else x.shortest.positional
    if x.negative then "-" ++ magnitude else magnitude

def Number.text : Number → String
  | integer i => toString i.toInt
  | float x => x.text

end Interop
