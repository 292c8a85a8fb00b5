import Interop.Delivery.Numeric
import Interop.Values.PlainValue

/-!
# Delivery strategies

One strategy serves each native type. It says how well a script value fits the type and converts
the value to it.

* `TypeGraph.strategy`: the strategy of a type. It depends on the type alone.
* `Strategy.score`: the cost of a delivery. A table is judged by its first element.
* `Strategy.convert`: the native value. What scores uncoercible is refused; a table is refused
  also if any of its elements is, and has to be short enough for an array to have room for it.

A score asks a value for its kind. Whether a value is nil on its own account is asked only when it
is converted as text, so a value may score as nil and yet not be converted as nil.
-/

namespace Interop

inductive TextForm where
  | text
  | bytes
  deriving DecidableEq, Repr

inductive Strategy where
  | boolean
  | numeric (target : NumericForm)
  | text (target : TextForm)
  | array (element : TypeId) (elements : Strategy)
  | object (target : TypeId)
  deriving DecidableEq, Repr

/-! ## The strategy of a type -/

/-- The strategies that are fixed from the start: those of the primitives and their wrappers, of
text and of byte arrays. -/
def Strategy.known? (t : TypeId) : Option Strategy :=
  match Builtin.carried? t with
  | some p => some (((NumericForm.ofPrimitive? p).map numeric).getD boolean)
  | none =>
    if t = Builtin.text then some (text .text)
    else if t = Builtin.bytes then some (text .bytes)
    else none

/-- The strategy of a type: the fixed one, for another array type that of its elements, and else
delivery by inheritance. The element type of an array is older than the array. -/
def TypeGraph.strategy (g : TypeGraph) (t : TypeId) : Strategy :=
  match Strategy.known? t with
  | some s => s
  | none =>
    match g.element? t with
    | some element =>
      if element.index < t.index then .array element (g.strategy element) else .object t
    | none => .object t
  termination_by t.index

/-! ## Errors -/

/-- Why nothing is delivered. `overflow` is no refusal but a stop: an array would need more room
than can be asked for, and whatever conversion is under way ends there. -/
inductive DeliveryError where
  | refused (kind : ValueKind) (target : String)
  | elementRefused (position : Nat) (target : String)
  | argumentCount (expected actual : Nat)
  | finalField (field : String)
  | overflow
  deriving DecidableEq, Repr

def DeliveryError.message : DeliveryError → String
  | refused kind target => "Cannot coerce " ++ kind.name ++ " to " ++ target
  | elementRefused position target =>
    "Cannot coerce table element " ++ toString position ++ " to " ++ target
  | argumentCount expected actual =>
    "Expected " ++ toString expected ++ " arguments, got " ++ toString actual
  | finalField field => "Field " ++ field ++ " is final"
  | overflow => "capacity overflow"

/-- The error of a table for one of its elements. -/
def DeliveryError.ofElement (position : Nat) (target : String) : DeliveryError → DeliveryError
  | overflow => overflow
  | _ => elementRefused position target

namespace Strategy

/-! ## Scores -/

def booleanScore (v : ScriptValue) : Score :=
  if v.kind = .boolean then .exact else .ofCost 1

def numericScore (target : NumericForm) (v : ScriptValue) : Score :=
  match v.kind, v.number? with
  | .number, some n => target.score n
  | .text, some n => target.score n + .ofCost Score.readingPenalty
  | _, _ => .uncoercible

/-- Whether the bytes of a text are UTF-8; a text without bytes is not. -/
def hasValidText (v : ScriptValue) : Bool := (v.bytes?.map Utf8.isValid).getD false

def textScore (target : TextForm) (v : ScriptValue) : Score :=
  match v.kind, target with
  | .text, .text => if hasValidText v then .exact else .lossy
  | .text, .bytes => if hasValidText v then .ofCost 1 else .exact
  | .nil, _ => .nilAsNull
  | _, .text => .lossy
  | _, .bytes => .uncoercible

/-- The native type as which a value would be delivered if nothing were asked of it. -/
def naturalType? (v : ScriptValue) : Option TypeId :=
  match v.kind with
  | .number =>
    match v.number? with
    | some (.integer i) =>
      some (Builtin.wrapper (if NumericForm.int.holds i.toInt then .int else .long))
    | _ => some (Builtin.wrapper .double)
  | .boolean => some (Builtin.wrapper .boolean)
  | .text => some Builtin.text
  | .userdata => v.object?.map NativeObject.type
  | _ => some v.representation

def objectScore (g : TypeGraph) (target : TypeId) (v : ScriptValue) : Score :=
  if v.kind = .nil then .nilAsNull else .ofCost (g.distance target (naturalType? v))

def score (g : TypeGraph) : Strategy → ScriptValue → Score
  | boolean, v => booleanScore v
  | numeric target, v => numericScore target v
  | text target, v => textScore target v
  | array element elements, v =>
    match v.kind with
    | .table => if v.length = 0 then .exact else score g elements (v.index 1)
    | .userdata => .ofCost (g.distance element (v.object?.bind fun o => g.element? o.type))
    | .nil => .nilAsNull
    | _ => .uncoercible
  | object target, v => objectScore g target v

/-! ## Conversion -/

/-- The name of the target type, for messages. -/
def targetText (g : TypeGraph) : Strategy → String
  | boolean => Primitive.boolean.keyword
  | numeric target => target.keyword
  | text .text => g.name Builtin.text
  | text .bytes => g.name Builtin.bytes
  | array element _ => g.name element ++ "[]"
  | object target => g.name target

/-- The refusal of a value. -/
def refusal (g : TypeGraph) (s : Strategy) (v : ScriptValue) : DeliveryError :=
  .refused v.kind (s.targetText g)

/-- The native object of a value, null if there is none. -/
def unwrap (v : ScriptValue) : NativeValue := (v.object?.map NativeValue.object).getD .null

/-- What says that it is nil is null, whatever its kind. -/
def textValue? (target : TextForm) (v : ScriptValue) : Option NativeValue :=
  if v.isNil then some .null
  else
    match target with
    | .text => some (.text v.text)
    | .bytes => v.bytes?.map .bytes

/-- Delivers the elements of a table one after the other, up to the first failure. Room for all of
them is asked for first. -/
def tableValue (g : TypeGraph) (element : TypeId)
    (convert : ScriptValue → Except DeliveryError NativeValue) (v : ScriptValue) :
    Except DeliveryError NativeValue := do
  if NativeValue.capacity < v.length then throw .overflow
  let items ← (List.range' 1 v.length).mapM fun position =>
    (convert (v.index position)).mapError (.ofElement position (g.name element))
  return .array element items

def objectValue (v : ScriptValue) : NativeValue :=
  match v.kind with
  | .number =>
    match v.number? with
    | some (.integer i) => if NumericForm.int.holds i.toInt then .int i.toInt32 else .long i
    | some (.float x) => .double x
    | none => .null
  | .boolean => .boolean v.truth
  | .text => .text v.text
  | .userdata => unwrap v
  | .nil => .null
  | _ => .script v

/-- Converts a value that does not score uncoercible. -/
def convert (g : TypeGraph) (s : Strategy) (v : ScriptValue) : Except DeliveryError NativeValue :=
  if !(s.score g v).isCoercible then .error (s.refusal g v)
  else
    match s with
    | boolean => .ok (.boolean v.truth)
    | numeric target =>
      match v.number? with
      | some n => .ok (target.deliver n)
      | none => .error (refusal g (numeric target) v)
    | text target =>
      match textValue? target v with
      | some n => .ok n
      | none => .error (refusal g (text target) v)
    | array element elements =>
      match v.kind with
      | .table => tableValue g element (convert g elements) v
      | .userdata => .ok (unwrap v)
      | _ => .ok .null
    | object _ => .ok (objectValue v)

/-- The written form of a strategy. -/
def describe (g : TypeGraph) (s : Strategy) : String :=
  let form := match s with
    | boolean => "BoolCoercion("
    | numeric target => "NumericCoercion(" ++ target.keyword
    | text _ => "TextCoercion(" ++ s.targetText g
    | array element _ => "ArrayCoercion(" ++ g.name element
    | object target => "ObjectCoercion(" ++ g.name target
  form ++ ")"

end Strategy

/-! ## Delivery to a type -/

namespace TypeGraph

/-- How well `v` fits the type `t`. -/
def score (g : TypeGraph) (t : TypeId) (v : ScriptValue) : Score := (g.strategy t).score g v

/-- Converts `v` to the type `t`. -/
def convert (g : TypeGraph) (t : TypeId) (v : ScriptValue) : Except DeliveryError NativeValue :=
  (g.strategy t).convert g v

end TypeGraph

end Interop
