import Interop.Members.Basic
import Interop.Types.Lineage

/-!
# Types with their members

A catalog holds the type graph and, for each type that has been given them, its own members. Public
members are collected along the lineage of a type: a subtype comes before its supertypes there, and
what it declares hides what they declare of the same kind and key.

* `Catalog.attach`: members are attached once.
* `Catalog.define`: the same from declarations, all of whose names have to be valid.
* `Catalog.visibleFields`, `Catalog.visibleMethods`, `Catalog.visibleNested`: the first public
  member of each name, signature or type along the lineage. Constructors are not inherited.
-/

namespace Interop

/-- The members of the list with distinct keys, the first one of each key. -/
def firstBy {α β : Type} [DecidableEq β] (key : α → β) : List α → List α
  | [] => []
  | a :: rest => a :: (firstBy key rest).filter fun b => key b ≠ key a

structure Catalog where
  types : TypeGraph
  members : TypeMap Members

namespace Catalog

def initial : Catalog := ⟨.initial, .empty⟩

variable (c : Catalog)

/-! ## Attaching members -/

def attach (t : TypeId) (m : Members) : Except MemberError Catalog :=
  if c.members.contains t then .error (.alreadyDeclared (c.types.name t))
  else .ok { c with members := c.members.insert t m }

/-- Attaches the declared members. The first invalid name is reported before anything else. -/
def define (t : TypeId) (ds : List Declaration) : Except MemberError Catalog :=
  match ds.findSome? Declaration.invalidName? with
  | some name => .error (.badName (c.types.name t) name)
  | none => c.attach t (.ofDeclarations t ds)

/-! ## Public members -/

/-- What the types of a lineage declare, in order. -/
def declaredAlong {α : Type} (kind : Members → List α) (t : TypeId) : List α :=
  (c.types.lineage t).flatMap fun u => ((c.members.get? u).map kind).getD []

def visibleFields (t : TypeId) : List Field :=
  firstBy Field.name ((c.declaredAlong Members.fields t).filter (·.modifiers.isPublic))

def visibleMethods (t : TypeId) : List Method :=
  firstBy Method.signature ((c.declaredAlong Members.methods t).filter (·.modifiers.isPublic))

def visibleConstructors (t : TypeId) : List Constructor :=
  (((c.members.get? t).map Members.constructors).getD []).filter (·.modifiers.isPublic)

def visibleNested (t : TypeId) : List TypeId :=
  firstBy id <|
    ((c.declaredAlong Members.nested t).filter (·.modifiers.isPublic)).map NestedType.type

end Catalog

end Interop
