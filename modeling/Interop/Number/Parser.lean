import Interop.Number.Basic
import Interop.Text.Blank
import Interop.Text.Utf8

/-!
# Reading a number from text

Text is a number if, without the blanks around it, it is an optional sign and one of three bodies:
hexadecimal digits after `0x`, decimal digits, or a decimal with a point or an exponent.

* `Number.ofBytes?`: reads bytes, which have to be UTF-8.
* Hexadecimal bodies wrap around 64 bits. Decimal digits beyond 64 bits are read as a double.
-/

namespace Interop

def isHexDigit (c : Char) : Bool :=
  isDigit c || ('a' ≤ c && c ≤ 'f') || ('A' ≤ c && c ≤ 'F')

def hexDigitValue (c : Char) : Nat :=
  if isDigit c then digitValue c
  else if 'a' ≤ c then c.toNat - 'a'.toNat + 10
  else c.toNat - 'A'.toNat + 10

def hexDigitsValue (digits : List Char) : Nat :=
  digits.foldl (fun n c => 16 * n + hexDigitValue c) 0

/-- The word of 64 bits that hexadecimal digits stand for, those beyond it lost. -/
def hexWord (digits : List Char) : UInt64 :=
  digits.foldl (fun n c => n * 16 + (hexDigitValue c).toUInt64) 0

/-- The characters of decimals with a point or an exponent. -/
def isDecimalChar (c : Char) : Bool :=
  isDigit c || c == '.' || c == 'e' || c == 'E' || c == '+' || c == '-'

namespace Number

/-- The digits after `0x` or `0X`. -/
def hexBody? : List Char → Option (List Char)
  | '0' :: c :: digits => if c = 'x' || c = 'X' then some digits else none
  | _ => none

def fitsInt64 (i : Int) : Bool := Int64.minValue.toInt ≤ i && i ≤ Int64.maxValue.toInt

/-- Reads decimal digits after an optional sign, as far as their value has 64 bits. -/
def int64? (text : List Char) : Option Int64 :=
  (signedDigits? text).bind fun i => if fitsInt64 i then some (.ofInt i) else none

/-- Reads a text without blanks around it. A body of digits alone is read together with its sign,
so that the least integer is in range; a body that holds more is first held against the characters
of decimals, so that it is none of the words for infinity and NaN. -/
def ofChars? (text : List Char) : Option Number :=
  let (negative, body) := splitSign text
  if body.isEmpty || body.head? == some '+' || body.head? == some '-' then none
  else
    match hexBody? body with
    | some digits =>
      if digits.isEmpty || !digits.all isHexDigit then none
      else
        let value := (hexWord digits).toInt64
        some (.integer (if negative then -value else value))
    | none =>
      match if body.all isDigit then int64? text else none with
      | some i => some (.integer i)
      | none =>
        if !body.all isDecimalChar || !body.any isDigit then none
        else (Binary.ofChars? .double body).map fun x => .float (x.withSign negative)

def ofBytes? (bytes : List UInt8) : Option Number :=
  (Utf8.decode? bytes).bind fun text => ofChars? (trimBlanks text)

end Number

end Interop
