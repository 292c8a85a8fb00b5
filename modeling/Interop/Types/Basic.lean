/-!
# Native types

A native type is known by its position in a type graph: an array of descriptors that only ever
grows. A descriptor names the type, gives its shape and lists its direct supertypes.

* `TypeId.number`, `TypeId.Same`: what a host tells types by. It counts them in 32 bits, so numbers
  come again after as many types.
* `TypeGraph.supertypes`: the direct supertypes, the superclass before the interfaces.
* `unqualified`: the part of a name after its last separator.

Only the table of array types goes by numbers here. All else that compares or finds types goes by
their positions. This is the same as long as no number has come again (`TypeGraph.eq_of_same`), and
so it describes hosts with at most `TypeId.numbers` types.
-/

namespace Interop

inductive Primitive where
  | boolean | byte | char | short | int | long | float | double
  deriving DecidableEq, Repr

namespace Primitive

def all : List Primitive := [boolean, byte, char, short, int, long, float, double]

/-- The position of a primitive in `Primitive.all`. -/
def rank : Primitive → Nat
  | boolean => 0
  | byte => 1
  | char => 2
  | short => 3
  | int => 4
  | long => 5
  | float => 6
  | double => 7

def keyword : Primitive → String
  | boolean => "boolean"
  | byte => "byte"
  | char => "char"
  | short => "short"
  | int => "int"
  | long => "long"
  | float => "float"
  | double => "double"

/-- The name of the class whose objects hold a value of the primitive. -/
def wrapperName : Primitive → String
  | boolean => "Boolean"
  | byte => "Byte"
  | char => "Character"
  | short => "Short"
  | int => "Integer"
  | long => "Long"
  | float => "Float"
  | double => "Double"

def isNumeric (p : Primitive) : Bool := p != boolean

end Primitive

/-- A native type, as its position in a type graph: the count of the types made before it. -/
structure TypeId where
  index : Nat
  deriving DecidableEq, Repr

namespace TypeId

/-- How many numbers there are for types. -/
def numbers : Nat := 0x100000000

/-- The number of a type. Numbers count from one on, in 32 bits. -/
def number (t : TypeId) : UInt32 := .ofNat (t.index + 1)

/-- Two types are one and the same for a host iff their numbers are, whatever their names. -/
def Same (t u : TypeId) : Prop := t.number = u.number

instance (t u : TypeId) : Decidable (t.Same u) := inferInstanceAs (Decidable (t.number = u.number))

/-- The first of the types that have the number of `t`. -/
def first (t : TypeId) : TypeId := ⟨t.index % numbers⟩

end TypeId

inductive Shape where
  | primitive (p : Primitive)
  | classType
  | interfaceType
  | array (element : TypeId)
  deriving DecidableEq, Repr

structure Descriptor where
  name : String
  shape : Shape
  superclass : Option TypeId
  interfaces : List TypeId
  deriving DecidableEq, Repr

def Descriptor.supertypes (d : Descriptor) : List TypeId := d.superclass.toList ++ d.interfaces

/-! ## Names -/

def isSeparator (c : Char) : Bool := c == '.' || c == '$' || c == ':'

/-- The part of a name after its last separator. -/
def unqualified (name : String) : String :=
  String.ofList (name.toList.reverse.takeWhile fun c => !isSeparator c).reverse

end Interop
