import Interop.Members.Basic
import Interop.Text.Quoted
import Interop.Values.ScriptValue

/-!
# Descriptions

Texts that show a type, a field, an object or a surface to someone who looks for a fault.
-/

namespace Interop

def Access.label : Access → String
  | unchecked => "Open"
  | relaxable => "Relaxable"
  | sealed => "Sealed"

namespace TypeGraph

variable (g : TypeGraph)

def inspect (t : TypeId) : String := "NativeType(" ++ g.name t ++ ")"

def inspectObject (o : NativeObject) : String := "NativeObject(" ++ g.name o.type ++ ")"

def inspectField (f : Field) : String :=
  "FieldInfo \x7b name: " ++ Quoted.quote f.name ++ ", ty: " ++ g.inspect f.type ++
    ", declaring: " ++ Quoted.quote (g.name f.declaring) ++
    ", access: " ++ f.access.label ++ " \x7d"

/-- The description of a surface of the type `t`. -/
def inspectSurface (t : TypeId) : String := "ClassSurface \x7b ty: " ++ g.inspect t ++ " \x7d"

end TypeGraph

end Interop
