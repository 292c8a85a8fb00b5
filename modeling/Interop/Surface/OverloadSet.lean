import Interop.Members.Basic

/-!
# Overload sets

The methods that share a name, or the constructors of a type, in the order of their declaration.
There is at least one candidate.
-/

namespace Interop

/-- What a call can run. -/
inductive Callable where
  | method (m : Method)
  | constructor (c : Constructor)
  deriving DecidableEq, Repr

namespace Callable

def parameters : Callable → List TypeId
  | method m => m.parameters
  | constructor c => c.parameters

def arity (i : Callable) : Nat := i.parameters.length

def name : Callable → String
  | method m => m.name
  | constructor _ => nameOfConstructors

def text (g : TypeGraph) : Callable → String
  | method m => m.text g
  | constructor c => c.text g

end Callable

structure OverloadSet where
  name : String
  first : Callable
  others : List Callable
  deriving DecidableEq, Repr

namespace OverloadSet

def ofList? (name : String) : List Callable → Option OverloadSet
  | [] => none
  | first :: others => some ⟨name, first, others⟩

def candidates (o : OverloadSet) : List Callable := o.first :: o.others

/-- Whether a call has to choose. -/
def isOverloaded (o : OverloadSet) : Bool := !o.others.isEmpty

end OverloadSet

end Interop
