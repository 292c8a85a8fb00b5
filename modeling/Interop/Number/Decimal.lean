import Interop.Number.Binary

/-!
# Decimal numbers

A decimal is a natural coefficient times a power of ten. It is read from its written form, a run of
digits with an optional point and an optional exponent, and rounded to a binary format.

* `Decimal.ofChars?`: reads `12`, `1.5`, `5.`, `.5` and `1e-3`; there is no sign.
* `Decimal.toBinary`: the nearest binary number. Values far out of range are recognised from the
  size of the exponent, so that no huge power of ten is computed.
* `Binary.ofChars?`: reads a decimal with an optional sign, and the words for infinity and NaN.
-/

namespace Interop

/-- The number `coefficient * 10 ^ exponent`. -/
structure Decimal where
  coefficient : Nat
  exponent : Int
  deriving DecidableEq, Repr

/-! ## Signs and digits -/

/-- Splits a leading sign off: whether it is a minus, and what is left. -/
def splitSign : List Char → Bool × List Char
  | '-' :: r => (true, r)
  | '+' :: r => (false, r)
  | r => (false, r)

/-- The integer of an absolute value and a sign. -/
def signed (negative : Bool) (n : Nat) : Int := if negative then -(n : Int) else n

def isDigit (c : Char) : Bool := '0' ≤ c && c ≤ '9'

def digitValue (c : Char) : Nat := c.toNat - '0'.toNat

/-- The value of a run of decimal digits, most significant first. -/
def digitsValue (digits : List Char) : Nat :=
  digits.foldl (fun n c => 10 * n + digitValue c) 0

/-- Reads one or more digits after an optional sign. -/
def signedDigits? (cs : List Char) : Option Int :=
  let (negative, digits) := splitSign cs
  if digits.isEmpty || !digits.all isDigit then none
  else some (signed negative (digitsValue digits))

/-- The count of decimal digits of a number; zero has none. -/
def decimalLength (n : Nat) : Nat :=
  if n = 0 then 0 else decimalLength (n / 10) + 1

/-- The greatest `e` with `10 ^ e ≤ x`, for a positive `x`. -/
def floorLog10 (x : Rat) : Int :=
  if 1 ≤ x then decimalLength x.floor.toNat - 1
  else -decimalLength (x.inv.ceil - 1).toNat

namespace Decimal

def toRat (d : Decimal) : Rat := d.coefficient * (10 : Rat) ^ d.exponent

/-! ## Reading -/

/-- Reads what follows the digits: nothing, or an exponent. -/
def exponent? : List Char → Option Int
  | [] => some 0
  | c :: r => if c = 'e' || c = 'E' then signedDigits? r else none

/-- Reads the fraction after the whole digits: its digits and what is left. -/
def splitFraction : List Char → List Char × List Char
  | '.' :: r => r.span isDigit
  | r => ([], r)

/-- Reads an unsigned decimal: digits with at most one point and at least one digit beside it,
then an optional exponent. -/
def ofChars? (cs : List Char) : Option Decimal :=
  let (whole, rest) := cs.span isDigit
  let (fraction, rest) := splitFraction rest
  if whole.isEmpty && fraction.isEmpty then none
  else (exponent? rest).map fun e => ⟨digitsValue (whole ++ fraction), e - fraction.length⟩

/-! ## Rounding -/

/-- An `e` such that a nonzero `d` is at least `2 ^ e`, from `8 ≤ 10 ≤ 16`. -/
def lowerLog2 (d : Decimal) : Int :=
  Nat.log2 d.coefficient + (if d.exponent < 0 then 4 * d.exponent else 3 * d.exponent)

/-- An `e` such that `d` is below `2 ^ e`, from `8 ≤ 10 ≤ 16`. -/
def upperLog2 (d : Decimal) : Int :=
  Nat.log2 d.coefficient + 1 + (if d.exponent < 0 then 3 * d.exponent else 4 * d.exponent)

/-- The nonnegative number nearest to `d`. -/
def toBinary (f : Format) (d : Decimal) : Binary f :=
  if d.coefficient = 0 || d.upperLog2 < f.minExponent then .zero f false
  else if f.maxExponent < d.lowerLog2 then .infinite f false
  else .ofRat f d.toRat

end Decimal

/-! ## Texts of binary numbers -/

/-- The words for infinity and NaN, in small letters. -/
def infinityWords : List String := ["inf", "infinity"]

def nanWords : List String := ["nan"]

namespace Binary

variable {f : Format}

/-- The number of an absolute value and a sign. -/
def withSign (negative : Bool) (x : Binary f) : Binary f := if negative then x.neg else x

/-- Reads the words, in any letter case, and decimals, all of them after an optional sign. -/
def ofChars? (f : Format) (cs : List Char) : Option (Binary f) :=
  let (negative, body) := splitSign cs
  let word := String.ofList (body.map Char.toLower)
  if infinityWords.contains word then some (infinite f negative)
  else if nanWords.contains word then some ((nan f).withSign negative)
  else (Decimal.ofChars? body).map fun d => (d.toBinary f).withSign negative

end Binary

end Interop
