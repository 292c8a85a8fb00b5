/-!
# Binary floating-point formats

A number of a binary format is a sign and a magnitude: the exponent and fraction fields read as one
natural number. The magnitudes of the finite numbers come first and in the order of their values,
then infinity, then the NaNs, so a carry out of the fraction steps to the next exponent and an
overflow lands on infinity.

* `Binary.value?`: the exact rational value of a finite number.
* `Binary.ofRat`: the number nearest to a rational, a tie to the even magnitude.
* `Binary.same`: equality of values, in which a NaN differs from itself and the zeros agree.
-/

namespace Interop

/-- The widths of the two fields beside the sign; neither is empty. -/
structure Format where
  fractionBits : Nat
  exponentBits : Nat
  fractionBits_pos : 0 < fractionBits := by decide
  exponentBits_pos : 0 < exponentBits := by decide
  deriving DecidableEq, Repr

namespace Format

/-- IEEE 754 binary64. -/
def double : Format where
  fractionBits := 52
  exponentBits := 11

/-- IEEE 754 binary32. -/
def single : Format where
  fractionBits := 23
  exponentBits := 8

variable (f : Format)

/-- The bits of the two fields, the sign left out. -/
def magnitudeBits : Nat := f.exponentBits + f.fractionBits

/-- The step between the magnitudes of a power of two and of the next one. -/
def binade : Nat := 1 <<< f.fractionBits

/-- The count of magnitudes. -/
def magnitudes : Nat := 1 <<< f.magnitudeBits

/-- The magnitude of infinity: the exponent field all ones, the fraction zero. -/
def infinity : Nat := (1 <<< f.exponentBits - 1) * f.binade

/-- Finite numbers are below two to this power. -/
def maxExponent : Int := (1 <<< (f.exponentBits - 1) : Nat)

/-- The least positive number is two to this power. -/
def minExponent : Int := 2 - f.maxExponent - f.fractionBits

theorem binade_pos : 0 < f.binade := by simp [binade]

theorem magnitudes_pos : 0 < f.magnitudes := by simp [magnitudes]

theorem infinity_lt : f.infinity < f.magnitudes := by
  simp only [infinity, magnitudes, magnitudeBits, binade, Nat.one_shiftLeft, Nat.pow_add]
  exact Nat.mul_lt_mul_of_pos_right (by have := Nat.two_pow_pos f.exponentBits; omega)
    (Nat.two_pow_pos _)

end Format

/-- A number of the format `f`, NaNs included. -/
structure Binary (f : Format) where
  negative : Bool
  magnitude : Nat
  magnitude_lt : magnitude < f.magnitudes
  deriving DecidableEq

abbrev Double := Binary Format.double

abbrev Single := Binary Format.single

/-- The integer nearest to `x`; of two equally near ones the even one. -/
def roundHalfEven (x : Rat) : Int :=
  let below := x.floor
  if x - below < 1 / 2 then below
  else if 1 / 2 < x - below then below + 1
  else below + below % 2

/-- The greatest `e` with `2 ^ e ≤ x`, for a positive `x`. -/
def floorLog2 (x : Rat) : Int :=
  let guess : Int := (Nat.log2 x.num.natAbs : Int) - Nat.log2 x.den
  if (2 : Rat) ^ guess ≤ x then guess else guess - 1

namespace Binary

variable {f : Format}

/-! ## Bit patterns -/

def toBits (x : Binary f) : Nat :=
  (if x.negative then f.magnitudes else 0) + x.magnitude

/-- Reads the sign from the bit above the magnitude and ignores the bits above the sign. -/
def ofBits (f : Format) (bits : Nat) : Binary f where
  negative := bits / f.magnitudes % 2 = 1
  magnitude := bits % f.magnitudes
  magnitude_lt := Nat.mod_lt _ f.magnitudes_pos

/-! ## Classes of numbers -/

def isNaN (x : Binary f) : Bool := f.infinity < x.magnitude

def isInfinite (x : Binary f) : Bool := x.magnitude == f.infinity

def isFinite (x : Binary f) : Bool := x.magnitude < f.infinity

/-! ## Values -/

/-- The value of a magnitude. Past the finite ones it goes on with the same spacing, so the
neighbours of the greatest finite magnitude have values too. -/
def magnitudeValue (f : Format) (magnitude : Nat) : Rat :=
  let exponent := magnitude / f.binade
  let fraction := magnitude % f.binade
  if exponent = 0 then fraction * (2 : Rat) ^ f.minExponent
  else ((f.binade + fraction : Nat) : Rat) * (2 : Rat) ^ (f.minExponent + (exponent - 1))

/-- The absolute value of a finite number. -/
def absValue (x : Binary f) : Rat := magnitudeValue f x.magnitude

/-- The exact value of a finite number. -/
def value? (x : Binary f) : Option Rat :=
  if x.isFinite then some (if x.negative then -x.absValue else x.absValue) else none

/-- Whether `x` is finite and has no fractional part. -/
def isIntegral (x : Binary f) : Bool :=
  match x.value? with
  | some v => v.den == 1
  | none => false

/-- Equality of values: a NaN differs from every number, and the two zeros agree. -/
def same (x y : Binary f) : Bool :=
  !x.isNaN && !y.isNaN &&
    x.magnitude == y.magnitude && (x.negative == y.negative || x.magnitude == 0)

def neg (x : Binary f) : Binary f := { x with negative := !x.negative }

/-! ## Rounding -/

/-- The magnitude nearest to a nonnegative rational, infinity included. -/
def nearestMagnitude (f : Format) (x : Rat) : Nat :=
  if x = 0 then 0
  else
    let exponent := max f.minExponent (floorLog2 x - f.fractionBits)
    let significand := roundHalfEven (x * (2 : Rat) ^ (-exponent))
    min f.infinity
      ((exponent - f.minExponent).toNat * f.binade + significand.toNat)

theorem nearestMagnitude_le (f : Format) (x : Rat) : nearestMagnitude f x ≤ f.infinity := by
  unfold nearestMagnitude
  split
  · exact Nat.zero_le _
  · exact Nat.min_le_left _ _

def infinite (f : Format) (negative : Bool) : Binary f := ⟨negative, f.infinity, f.infinity_lt⟩

def zero (f : Format) (negative : Bool) : Binary f := ⟨negative, 0, f.magnitudes_pos⟩

/-- The number nearest to `x`: a tie goes to the even magnitude, a value out of range to the
infinity or zero of its sign. -/
def ofRat (f : Format) (x : Rat) : Binary f where
  negative := x < 0
  magnitude := nearestMagnitude f x.abs
  magnitude_lt := Nat.lt_of_le_of_lt (nearestMagnitude_le f _) f.infinity_lt

def ofInt (f : Format) (i : Int) : Binary f := ofRat f i

/-- The magnitude of the quiet NaN: infinity with the top fraction bit set. -/
def nan (f : Format) : Binary f :=
  ofBits f (f.infinity + f.binade / 2)

/-- The nearest number of another format. The sign stays, also that of a zero. -/
def convert (g : Format) (x : Binary f) : Binary g :=
  if x.isNaN then nan g
  else if x.isInfinite then infinite g x.negative
  else { ofRat g x.absValue with negative := x.negative }

/-- The integer part of `x`, brought into the range of 64 bits; that of a NaN is zero. -/
def toInt64 (x : Binary f) : Int64 :=
  if x.isNaN then 0
  else if x.isInfinite then (if x.negative then Int64.minValue else Int64.maxValue)
  else
    let whole := x.absValue.floor
    Int64.ofInt
      (max Int64.minValue.toInt
        (min Int64.maxValue.toInt (if x.negative then -whole else whole)))

end Binary

end Interop
