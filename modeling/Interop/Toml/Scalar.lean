import Interop.Toml.Scan
import Interop.Toml.Table

/-!
# Numbers, times and booleans of TOML

A scalar without quotes is a run of letters, digits and a few marks. Each kind has a form that the
whole run has to match.

* `integer?`: decimal digits with a sign, or digits of another base after `0x`, `0o` or `0b`.
* `float?`: a decimal with a fraction or an exponent, an infinity or a NaN.
* `isTime`: a date, a time of day, or both with an offset or without.
* `scalar?`: any of these or a boolean.
-/

namespace Interop.Toml

def isScalarChar (c : Char) : Bool :=
  isBareKeyChar c || c = '+' || c = ':' || c = '.'

/-! ## Digits with underscores -/

/-- Digits between which single underscores may stand, without the underscores. `after` says
whether a digit has just been read. -/
def plainDigits (digit : Char → Bool) (after : Bool) : List Char → Option (List Char)
  | [] => if after then some [] else none
  | c :: cs =>
    if digit c then (plainDigits digit true cs).map (c :: ·)
    else if c = '_' && after then plainDigits digit false cs
    else none

/-- The digits of a decimal integer, which has no needless leading zero. -/
def wholeDigits? : List Char → Option (List Char)
  | ['0'] => some ['0']
  | '0' :: _ => none
  | cs => plainDigits isDigit false cs

/-! ## Integers -/

def isOctalDigit (c : Char) : Bool := '0' ≤ c && c ≤ '7'

def isBinaryDigit (c : Char) : Bool := c = '0' || c = '1'

/-- The value of digits in a base of at most sixteen. -/
def valueInBase (base : Nat) (digits : List Char) : Nat :=
  digits.foldl (fun n c => base * n + hexDigitValue c) 0

/-- An integer of TOML has 64 bits at most. -/
def ofInt? (i : Int) : Option Int := if Number.fitsInt64 i then some i else none

def integer? : List Char → Option Int
  | '0' :: 'x' :: cs => do ofInt? (valueInBase 16 (← plainDigits isHexDigit false cs))
  | '0' :: 'o' :: cs => do ofInt? (valueInBase 8 (← plainDigits isOctalDigit false cs))
  | '0' :: 'b' :: cs => do ofInt? (valueInBase 2 (← plainDigits isBinaryDigit false cs))
  | cs => do
    let (negative, cs) := splitSign cs
    ofInt? (signed negative (digitsValue (← wholeDigits? cs)))

/-! ## Floats -/

/-- The digits of an exponent with its sign. -/
def exponent? (cs : List Char) : Option Int := do
  let (negative, cs) := splitSign cs
  return signed negative (digitsValue (← plainDigits isDigit false cs))

def isExponentMark (c : Char) : Bool := c = 'e' || c = 'E'

/-- Reads an unsigned decimal that has a fraction, an exponent or both. -/
def decimal? (cs : List Char) : Option Decimal :=
  let (mantissa, power) := cs.span fun c => !isExponentMark c
  let (whole, fraction) := mantissa.span (· ≠ '.')
  if power.isEmpty && fraction.isEmpty then none
  else do
    let whole ← wholeDigits? whole
    let fraction ← if fraction.isEmpty then some [] else plainDigits isDigit false fraction.tail
    let power ← if power.isEmpty then some 0 else exponent? power.tail
    return ⟨digitsValue (whole ++ fraction), power - fraction.length⟩

/-- Reads a float. A decimal beyond the greatest double is refused, one below the least is not. -/
def float? (cs : List Char) : Option Double :=
  let (negative, body) := splitSign cs
  let magnitude :=
    if body = ['i', 'n', 'f'] then some (.infinite .double false)
    else if body = ['n', 'a', 'n'] then some (.nan .double)
    else
      (decimal? body).bind fun d =>
        let x := d.toBinary .double
        if x.isInfinite && !negative then none else some x
  magnitude.map (Binary.withSign negative)

/-! ## Times -/

/-- Takes exactly `count` digits, whose value has to lie between two bounds. -/
def fixedDigits (count least greatest : Nat) (cs : List Char) : Option (Nat × List Char) :=
  let digits := cs.take count
  let value := digitsValue digits
  if digits.length = count && digits.all isDigit && least ≤ value && value ≤ greatest then
    some (value, cs.drop count)
  else none

def expect (c : Char) : List Char → Option (List Char)
  | d :: cs => if c = d then some cs else none
  | [] => none

def isLeapYear (year : Nat) : Bool := year % 4 = 0 && (year % 100 ≠ 0 || year % 400 = 0)

def daysInMonth (year month : Nat) : Nat :=
  if month = 2 then (if isLeapYear year then 29 else 28)
  else if month = 4 || month = 6 || month = 9 || month = 11 then 30
  else 31

/-- Takes a date: year, month and day of that month. -/
def date? (cs : List Char) : Option (List Char) := do
  let (year, cs) ← fixedDigits 4 0 9999 cs
  let (month, cs) ← fixedDigits 2 1 12 (← expect '-' cs)
  let (_, cs) ← fixedDigits 2 1 (daysInMonth year month) (← expect '-' cs)
  return cs

/-- Takes the digits after the point of the seconds, if there is one. -/
def secondFraction? : List Char → Option (List Char)
  | '.' :: cs =>
    let (digits, rest) := cs.span isDigit
    if digits.isEmpty then none else some rest
  | cs => some cs

/-- Takes a time of day. A minute may have a leap second. -/
def timeOfDay? (cs : List Char) : Option (List Char) := do
  let (_, cs) ← fixedDigits 2 0 23 cs
  let (_, cs) ← fixedDigits 2 0 59 (← expect ':' cs)
  let (_, cs) ← fixedDigits 2 0 60 (← expect ':' cs)
  secondFraction? cs

/-- Takes the offset of a time from universal time. -/
def offset? : List Char → Option (List Char)
  | c :: cs =>
    if c = 'Z' || c = 'z' then some cs
    else if c = '+' || c = '-' then do
      let (_, cs) ← fixedDigits 2 0 23 cs
      let (_, cs) ← fixedDigits 2 0 59 (← expect ':' cs)
      return cs
    else none
  | [] => none

def isTimeMark (c : Char) : Bool := c = 'T' || c = 't' || c = ' '

def isTime (cs : List Char) : Bool :=
  match date? cs with
  | some [] => true
  | some (c :: cs) =>
    isTimeMark c &&
      match timeOfDay? cs with
      | some [] => true
      | some cs => offset? cs = some []
      | none => false
  | none => timeOfDay? cs = some []

/-! ## All of them -/

/-- Takes the characters of a scalar. A space belongs to it between a date and a time. -/
def scalarChars (cs : List Char) : List Char × List Char :=
  let (chars, rest) := cs.span isScalarChar
  match rest with
  | ' ' :: c :: more =>
    if date? chars = some [] && isDigit c then
      let (time, rest) := (c :: more).span isScalarChar
      (chars ++ ' ' :: time, rest)
    else (chars, rest)
  | _ => (chars, rest)

def scalar? (chars : List Char) : Option Node :=
  if chars = ['t', 'r', 'u', 'e'] then some (.boolean true)
  else if chars = ['f', 'a', 'l', 's', 'e'] then some (.boolean false)
  else if isTime chars then some (.time (String.ofList chars))
  else
    match integer? chars with
    | some i => some (.integer i)
    | none => (float? chars).map .float

end Interop.Toml
