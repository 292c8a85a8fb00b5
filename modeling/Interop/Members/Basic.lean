import Interop.Types.Graph

/-!
# Members of native types

What a type declares itself: fields, methods, constructors and nested types, each with modifiers.
A member knows the type that declares it. The name of that type is not part of the member.

* `Members.ofDeclarations`: the members of a list of declarations, kind by kind in their order.
* `Declaration.invalidName?`: the name that makes a declaration invalid. Fields and methods may not
  have an empty name or the name of constructors.
-/

namespace Interop

structure Modifiers where
  isPublic : Bool
  isPrivate : Bool
  isProtected : Bool
  isStatic : Bool
  isFinal : Bool
  deriving DecidableEq, Repr

/-- How the host guards a field: without checks, with checks that it relaxes on request, or with
checks that it never relaxes. -/
inductive Access where
  | unchecked
  | relaxable
  | sealed
  deriving DecidableEq, Repr

/-- A field. `slot` is its position among the fields of the type that declares it. The name of that
type is not stored: it is that of `declaring` in the graph, as for methods and constructors. -/
structure Field where
  name : String
  type : TypeId
  modifiers : Modifiers
  declaring : TypeId
  access : Access
  slot : Nat
  deriving DecidableEq, Repr

/-- What tells a field from all others, also from those of its name. -/
def Field.key (f : Field) : TypeId × Nat := (f.declaring, f.slot)

/-- A method. There is no `result` type if it returns nothing. -/
structure Method where
  name : String
  parameters : List TypeId
  result : Option TypeId
  modifiers : Modifiers
  declaring : TypeId
  deriving DecidableEq, Repr

/-- What two methods share if one overrides the other. -/
def Method.signature (m : Method) : String × List TypeId := (m.name, m.parameters)

structure Constructor where
  parameters : List TypeId
  modifiers : Modifiers
  declaring : TypeId
  deriving DecidableEq, Repr

structure NestedType where
  type : TypeId
  modifiers : Modifiers
  deriving DecidableEq, Repr

structure Members where
  fields : List Field
  methods : List Method
  constructors : List Constructor
  nested : List NestedType
  deriving DecidableEq, Repr

def Members.empty : Members := ⟨[], [], [], []⟩

/-- The name under which constructors are found. -/
def nameOfConstructors : String := "<init>"

/-! ## Texts -/

def Method.text (g : TypeGraph) (m : Method) : String :=
  g.name m.declaring ++ "." ++ m.name ++ "(" ++ g.nameList m.parameters ++ ")"

def Constructor.text (g : TypeGraph) (c : Constructor) : String :=
  g.name c.declaring ++ "(" ++ g.nameList c.parameters ++ ")"

/-! ## Declarations -/

/-- One member as it is declared, before it belongs to a type. -/
inductive Declaration where
  | field (name : String) (type : TypeId) (modifiers : Modifiers) (access : Access)
  | method (name : String) (parameters : List TypeId) (result : Option TypeId)
      (modifiers : Modifiers)
  | constructor (parameters : List TypeId) (modifiers : Modifiers)
  | nested (type : TypeId) (modifiers : Modifiers)
  deriving DecidableEq, Repr

def isMemberName (name : String) : Bool := name != "" && name != nameOfConstructors

/-- The name of a field or method that may not have it. -/
def Declaration.invalidName? : Declaration → Option String
  | field name .. => if isMemberName name then none else some name
  | method name .. => if isMemberName name then none else some name
  | _ => none

/-- Adds a member of `owner` after those of its kind. -/
def Members.add (owner : TypeId) (m : Members) : Declaration → Members
  | .field name type modifiers access =>
    { m with fields := m.fields ++ [⟨name, type, modifiers, owner, access, m.fields.length⟩] }
  | .method name parameters result modifiers =>
    { m with methods := m.methods ++ [⟨name, parameters, result, modifiers, owner⟩] }
  | .constructor parameters modifiers =>
    { m with constructors := m.constructors ++ [⟨parameters, modifiers, owner⟩] }
  | .nested type modifiers => { m with nested := m.nested ++ [⟨type, modifiers⟩] }

def Members.ofDeclarations (owner : TypeId) (ds : List Declaration) : Members :=
  ds.foldl (Members.add owner) .empty

/-! ## Errors -/

inductive MemberError where
  | alreadyDeclared (typeName : String)
  | badName (typeName name : String)
  | sealedField (typeName field : String)
  deriving DecidableEq, Repr

def MemberError.message : MemberError → String
  | alreadyDeclared typeName => "Members of " ++ typeName ++ " are already declared"
  | badName typeName name => "Invalid member name '" ++ name ++ "' on " ++ typeName
  | sealedField typeName field => "Access denied to field " ++ typeName ++ "." ++ field

end Interop
