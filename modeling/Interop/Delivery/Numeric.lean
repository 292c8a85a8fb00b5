import Interop.Delivery.Score
import Interop.Values.NativeValue

/-!
# Numbers for numeric types

How well a script number fits a numeric type, and what it becomes there.

* `NumericForm.score`: an integer fits best where no narrower type holds it; a double fits the
  types that hold its exact value.
* `NumericForm.deliver`: the value. Integers are cut to the width, doubles are first truncated to
  64 bits.
-/

namespace Interop

inductive NumericForm where
  | byte | char | short | int | long | float | double
  deriving DecidableEq, Repr

namespace NumericForm

def ofPrimitive? : Primitive → Option NumericForm
  | .boolean => none
  | .byte => some byte
  | .char => some char
  | .short => some short
  | .int => some int
  | .long => some long
  | .float => some float
  | .double => some double

def keyword : NumericForm → String
  | byte => "byte"
  | char => "char"
  | short => "short"
  | int => "int"
  | long => "long"
  | float => "float"
  | double => "double"

/-! ## Integers -/

/-- The least and the greatest integer of an integral type. -/
def range? : NumericForm → Option (Int × Int)
  | byte => some (-0x80, 0x7F)
  | char => some (0, 0xFFFF)
  | short => some (-0x8000, 0x7FFF)
  | int => some (-0x80000000, 0x7FFFFFFF)
  | long => some (-0x8000000000000000, 0x7FFFFFFFFFFFFFFF)
  | float => none
  | double => none

/-- Whether an integral type holds `i`. -/
def holds (t : NumericForm) (i : Int) : Bool :=
  match t.range? with
  | some (least, greatest) => least ≤ i && i ≤ greatest
  | none => false

/-- The types that count as narrower: an integer that fits one of them fits `t` less well. -/
def narrower : NumericForm → List NumericForm
  | char => [byte]
  | short => [byte]
  | int => [byte, char, short]
  | _ => []

def integerScore (t : NumericForm) (i : Int64) : Score :=
  match t with
  | long => .ofCost 1
  | float => .ofCost 1
  | double => .ofCost 2
  | _ =>
    if t.holds i.toInt then .ofCost (if t.narrower.any (·.holds i.toInt) then 1 else 0)
    else .lossy

/-! ## Doubles -/

/-- Whether `x` is an integer of 64 bits. -/
def isLong (x : Double) : Bool :=
  match x.value? with
  | some v => x.isIntegral && -0x8000000000000000 ≤ v && v < 0x8000000000000000
  | none => false

/-- Whether `x` is a value of single precision. -/
def isSingle (x : Double) : Bool :=
  ((x.convert .single).convert .double).same x

def floatScore (t : NumericForm) (x : Double) : Score :=
  match t with
  | long => if isLong x then .exact else .lossy
  | float => if isSingle x then .exact else .lossy
  | double => if isLong x || isSingle x then .ofCost 1 else .exact
  | _ => .lossy

/-! ## Both -/

def score (t : NumericForm) : Number → Score
  | .integer i => t.integerScore i
  | .float x => t.floatScore x

def deliver (t : NumericForm) (n : Number) : NativeValue :=
  match t with
  | byte => .byte n.toInt64.toInt8
  | char => .char n.toInt64.toUInt64.toUInt16
  | short => .short n.toInt64.toInt16
  | int => .int n.toInt64.toInt32
  | long => .long n.toInt64
  | float => .float (n.toDouble.convert .single)
  | double => .double n.toDouble

end NumericForm

end Interop
