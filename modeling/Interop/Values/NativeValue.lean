import Interop.Values.ScriptValue

/-!
# Native values

What a script value becomes on the native side.

* `NativeValue.capacity`: how many values an array has room for.
* `NativeValue.same`: equality as the native side sees it. Objects and script values are compared
  by identity, numbers of the two binary formats by value.
-/

namespace Interop

inductive NativeValue where
  | null
  | boolean (b : Bool)
  | byte (i : Int8)
  | char (i : UInt16)
  | short (i : Int16)
  | int (i : Int32)
  | long (i : Int64)
  | float (x : Single)
  | double (x : Double)
  | text (s : String)
  | bytes (b : List UInt8)
  | array (element : TypeId) (items : List NativeValue)
  | object (o : NativeObject)
  | script (v : ScriptValue)

namespace NativeValue

/-- The most values that an array can have room for: each of them takes 32 bytes, and fewer than
`2 ^ 63` bytes can be asked for at a time. The memory that is there is not part of a host. -/
def capacity : Nat := 0x3ffffffffffffff

def formName : NativeValue → String
  | null => "null"
  | boolean _ => "boolean"
  | byte _ => "byte"
  | char _ => "char"
  | short _ => "short"
  | int _ => "int"
  | long _ => "long"
  | float _ => "float"
  | double _ => "double"
  | text _ => "String"
  | bytes _ => "byte[]"
  | array .. => "array"
  | object _ => "object"
  | script _ => "script"

def isNull : NativeValue → Bool
  | null => true
  | _ => false

/-! ## Views -/

def int? : NativeValue → Option Int32
  | int i => some i
  | _ => none

def long? : NativeValue → Option Int64
  | long i => some i
  | _ => none

def double? : NativeValue → Option Double
  | double x => some x
  | _ => none

def text? : NativeValue → Option String
  | text s => some s
  | _ => none

def items? : NativeValue → Option (List NativeValue)
  | array _ items => some items
  | _ => none

def object? : NativeValue → Option NativeObject
  | object o => some o
  | _ => none

/-! ## Equality -/

mutual

def same : NativeValue → NativeValue → Bool
  | null, null => true
  | boolean a, boolean b => a == b
  | byte a, byte b => a == b
  | char a, char b => a == b
  | short a, short b => a == b
  | int a, int b => a == b
  | long a, long b => a == b
  | float a, float b => a.same b
  | double a, double b => a.same b
  | text a, text b => a == b
  | bytes a, bytes b => a == b
  | array e as, array e' bs => e = e' && sameItems as bs
  | object a, object b => a.handle == b.handle
  | script a, script b => a.handle == b.handle
  | _, _ => false

def sameItems : List NativeValue → List NativeValue → Bool
  | [], [] => true
  | a :: as, b :: bs => same a b && sameItems as bs
  | _, _ => false

end

end NativeValue

end Interop
