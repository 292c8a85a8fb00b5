import Interop.Number.Basic
import Interop.Types.Basic

/-!
# Script values

A script value is known by what its runtime answers about it. The answers need not agree with each
other: a runtime of its own may give any of them, and a value of a kind other than nil may say that
it is nil. Each of them is asked for without an effect and always answered in the same way.

* `ScriptValue.index`: the element of a table at a position that counts from one, nil if there is
  none.
-/

namespace Interop

inductive ValueKind where
  | nil | boolean | number | text | table | function | userdata | thread
  deriving DecidableEq, Repr

/-- The script-side name of a kind. -/
def ValueKind.name : ValueKind → String
  | nil => "nil"
  | boolean => "boolean"
  | number => "number"
  | text => "string"
  | table => "table"
  | function => "function"
  | userdata => "userdata"
  | thread => "thread"

/-- A native object that a script holds. Two of them are the same object iff their handles are
equal. -/
structure NativeObject where
  type : TypeId
  payload : String
  handle : Nat
  deriving DecidableEq, Repr

/-- The answers of a runtime about one value. Two of them are about the same value iff their
handles are equal.

- `truth`: whether the value counts as true;
- `number?`: the number that it is or that its text reads as;
- `bytes?`: the bytes of a text;
- `text`: its written form;
- `length`, `element?`: the elements of a table;
- `object?`: the native object of a userdata value;
- `representation`: the native type that stands for a value passed on as it is;
- `isNil`: whether it is nil. Unless the runtime has an answer of its own, its kind decides. -/
structure ScriptValue where
  handle : Nat
  kind : ValueKind
  truth : Bool
  number? : Option Number
  bytes? : Option (List UInt8)
  text : String
  length : Nat
  element? : Nat → Option ScriptValue
  object? : Option NativeObject
  representation : TypeId
  isNil : Bool := kind = .nil

end Interop
