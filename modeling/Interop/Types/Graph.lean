import Interop.Types.Map

/-!
# The type graph

A graph starts with the types that every host knows and grows by classes, interfaces and arrays.

* `TypeGraph.initial`: the known types, at the positions that `Builtin` names.
* `TypeGraph.declareClass`, `TypeGraph.declareInterface`: a new type on each call.
* `TypeGraph.arrayType`: the one array type over an element type.

The known types come first in a graph, as if they were all made before any other type is.
-/

namespace Interop

/-! ## Known types -/

namespace Builtin

def object : TypeId := ⟨0⟩
def comparable : TypeId := ⟨1⟩
def charSequence : TypeId := ⟨2⟩
def number : TypeId := ⟨3⟩
def text : TypeId := ⟨4⟩
def table : TypeId := ⟨5⟩
def function : TypeId := ⟨6⟩
def thread : TypeId := ⟨7⟩
def primitive (p : Primitive) : TypeId := ⟨8 + p.rank⟩
def wrapper (p : Primitive) : TypeId := ⟨16 + p.rank⟩

/-- The array of bytes. -/
def bytes : TypeId := ⟨24⟩

/-- The primitive that a primitive type or its wrapper class carries. -/
def carried? (t : TypeId) : Option Primitive :=
  Primitive.all.find? fun p => t = primitive p || t = wrapper p

private def rootClass (name : String) (interfaces : List TypeId) : Descriptor :=
  ⟨name, .classType, some object, interfaces⟩

private def wrapperClass (p : Primitive) : Descriptor :=
  let superclass := if p.isNumeric && p != .char then number else object
  ⟨p.wrapperName, .classType, some superclass, [comparable]⟩

def descriptors : List Descriptor :=
  [⟨"Object", .classType, none, []⟩,
    ⟨"Comparable", .interfaceType, none, []⟩,
    ⟨"CharSequence", .interfaceType, none, []⟩,
    rootClass "Number" [],
    rootClass "String" [comparable, charSequence],
    rootClass "Table" [],
    rootClass "Function" [],
    rootClass "Thread" []] ++
  Primitive.all.map (fun p => ⟨p.keyword, .primitive p, none, []⟩) ++
  Primitive.all.map wrapperClass ++
  [⟨"byte[]", .array (primitive .byte), some object, []⟩]

/-- The known type of a name. -/
def ofName? (name : String) : Option TypeId :=
  (descriptors.findIdx? fun d => d.name = name).map TypeId.mk

end Builtin

/-- The types of a host. `arrays` finds the array type over an element type, once there is one. It
has one entry for each number: that of the first type of the number. -/
structure TypeGraph where
  descriptors : Array Descriptor
  arrays : TypeMap TypeId

namespace TypeGraph

def initial : TypeGraph where
  descriptors := Builtin.descriptors.toArray
  arrays := TypeMap.empty.insert (Builtin.primitive .byte).first Builtin.bytes

variable (g : TypeGraph)

def size : Nat := g.descriptors.size

/-! ## Facts about one type -/

def descriptor? (t : TypeId) : Option Descriptor := g.descriptors[t.index]?

def name (t : TypeId) : String := ((g.descriptor? t).map Descriptor.name).getD ""

def shape? (t : TypeId) : Option Shape := (g.descriptor? t).map Descriptor.shape

def superclass? (t : TypeId) : Option TypeId := (g.descriptor? t).bind Descriptor.superclass

def interfaces (t : TypeId) : List TypeId := ((g.descriptor? t).map Descriptor.interfaces).getD []

/-- The direct supertypes: the superclass, then the interfaces. -/
def supertypes (t : TypeId) : List TypeId := ((g.descriptor? t).map Descriptor.supertypes).getD []

def element? (t : TypeId) : Option TypeId :=
  match g.shape? t with
  | some (.array element) => some element
  | _ => none

def primitive? (t : TypeId) : Option Primitive :=
  match g.shape? t with
  | some (.primitive p) => some p
  | _ => none

def isArray (t : TypeId) : Bool := (g.element? t).isSome

def isPrimitive (t : TypeId) : Bool := (g.primitive? t).isSome

def isInterface (t : TypeId) : Bool := g.shape? t == some .interfaceType

/-- The names of `types` with commas between them. -/
def nameList (types : List TypeId) : String := ", ".intercalate (types.map g.name)

/-! ## New types -/

def add (d : Descriptor) : TypeId × TypeGraph :=
  (⟨g.size⟩, { g with descriptors := g.descriptors.push d })

/-- A new class. Without a superclass it extends the root. -/
def declareClass (name : String) (superclass : Option TypeId) (interfaces : List TypeId) :
    TypeId × TypeGraph :=
  g.add ⟨name, .classType, some (superclass.getD Builtin.object), interfaces⟩

def declareInterface (name : String) (extended : List TypeId) : TypeId × TypeGraph :=
  g.add ⟨name, .interfaceType, none, extended⟩

/-- The array type over a type of the number of `element`, if there is one. -/
def arrayType? (element : TypeId) : Option TypeId := g.arrays.get? element.first

/-- The array type over `element`: the one there is, or else a new one. -/
def arrayType (element : TypeId) : TypeId × TypeGraph :=
  match g.arrayType? element with
  | some found => (found, g)
  | none =>
    let (created, grown) :=
      g.add ⟨g.name element ++ "[]", .array element, some Builtin.object, []⟩
    (created, { grown with arrays := grown.arrays.insert element.first created })

end TypeGraph

end Interop
