import Interop.Number.Parser
import Interop.Types.Graph
import Interop.Values.ScriptValue

/-!
# Plain script values

The values of a host without a runtime of its own, and what they answer.

* `Value.script`: the script value that a plain value is, under a given handle.
* `ScriptValue.nil`: the one nil that stands for absent elements.
-/

namespace Interop

/-- A plain value. A table holds its elements from position one on without gaps. -/
inductive Value where
  | nil
  | boolean (b : Bool)
  | integer (i : Int64)
  | float (x : Double)
  | text (bytes : List UInt8)
  | table (items : Array ScriptValue)
  | function (name : String)
  | userdata (object : NativeObject)
  | thread (id : Nat)

namespace Value

def kind : Value → ValueKind
  | nil => .nil
  | boolean _ => .boolean
  | integer _ => .number
  | float _ => .number
  | text _ => .text
  | table _ => .table
  | function _ => .function
  | userdata _ => .userdata
  | thread _ => .thread

/-- Everything but nil and false counts as true. -/
def truth : Value → Bool
  | nil => false
  | boolean b => b
  | _ => true

def number? : Value → Option Number
  | integer i => some (.integer i)
  | float x => some (.float x)
  | text bytes => Number.ofBytes? bytes
  | _ => none

def bytes? : Value → Option (List UInt8)
  | text bytes => some bytes
  | _ => none

/-- The written form. A table shows its handle in place of its elements. -/
def written (g : TypeGraph) (handle : Nat) : Value → String
  | nil => "nil"
  | boolean b => if b then "true" else "false"
  | integer i => (Number.integer i).text
  | float x => (Number.float x).text
  | text bytes => Utf8.decodeLossy bytes
  | table _ => "table: 0x" ++ String.ofList (Nat.toDigits 16 handle)
  | function name => "function: " ++ name
  | userdata object => "userdata: " ++ g.name object.type
  | thread id => "thread: " ++ toString id

def length : Value → Nat
  | table items => items.size
  | _ => 0

def element? (v : Value) (index : Nat) : Option ScriptValue :=
  match v with
  | table items => if index = 0 then none else items[index - 1]?
  | _ => none

def object? : Value → Option NativeObject
  | userdata object => some object
  | _ => none

def representation : Value → TypeId
  | nil => Builtin.object
  | boolean _ => Builtin.wrapper .boolean
  | integer _ => Builtin.number
  | float _ => Builtin.number
  | text _ => Builtin.text
  | table _ => Builtin.table
  | function _ => Builtin.function
  | userdata object => object.type
  | thread _ => Builtin.thread

def script (g : TypeGraph) (handle : Nat) (v : Value) : ScriptValue where
  handle := handle
  kind := v.kind
  truth := v.truth
  number? := v.number?
  bytes? := v.bytes?
  text := v.written g handle
  length := v.length
  element? := v.element?
  object? := v.object?
  representation := v.representation

end Value

namespace ScriptValue

/-- The shared nil. -/
def nil : ScriptValue := Value.nil.script .initial 0

/-- The element at a position that counts from one, nil if there is none. -/
def index (v : ScriptValue) (position : Nat) : ScriptValue := (v.element? position).getD nil

end ScriptValue

end Interop
