import Interop.Members.Catalog
import Interop.Surface.NameTable
import Interop.Surface.OverloadSet

/-!
# Projections of a type

What scripts see of a native type: its public fields, methods and nested types by name, and its
public constructors.

* `Catalog.fieldTable`: a sealed field is left out, and so is an inherited field that it hides.
* `Catalog.methodTable`: the methods of a name stay in the order of their declaration.
* `Catalog.nestedTable`: of several nested types with one unqualified name the last one is found.
-/

namespace Interop

namespace Catalog

variable (c : Catalog)

def fieldTable (t : TypeId) : NameTable Field :=
  let fields := c.visibleFields t
  .build (fields.map Field.name) fun name =>
    fields.find? fun f => f.name = name && f.access ≠ .sealed

/-- The public fields that scripts do not get to see. -/
def omittedFields (t : TypeId) : List Field := (c.visibleFields t).filter (·.access = .sealed)

def methodTable (t : TypeId) : NameTable OverloadSet :=
  let methods := c.visibleMethods t
  .build (methods.map Method.name) fun name =>
    OverloadSet.ofList? name ((methods.filter (·.name = name)).map .method)

def constructors? (t : TypeId) : Option OverloadSet :=
  OverloadSet.ofList? nameOfConstructors ((c.visibleConstructors t).map .constructor)

def nestedTable (t : TypeId) : NameTable TypeId :=
  let nested := c.visibleNested t
  let key := fun u => unqualified (c.types.name u)
  .build (nested.map key) fun name => nested.reverse.find? fun u => key u = name

end Catalog

end Interop
