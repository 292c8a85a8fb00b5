import Interop.Members.Catalog

/-!
# Types under construction

A type that exists already can be given its members one declaration at a time. Until the last one is
made they are kept in a draft, and the type is without members.

* `Draft.declare`: one more declaration. One with an invalid name is dropped, and the name is kept
  unless there was an invalid one before.
* `Catalog.build`: attaches the members of a draft, or reports the invalid name that it keeps.
-/

namespace Interop

/-- The members declared so far, and the first name that a declaration may not have. -/
structure Draft where
  owner : TypeId
  members : Members
  invalid : Option String
  deriving DecidableEq, Repr

namespace Draft

def start (owner : TypeId) : Draft := ⟨owner, .empty, none⟩

def declare (d : Draft) (x : Declaration) : Draft :=
  match x.invalidName? with
  | some name => { d with invalid := d.invalid.or (some name) }
  | none => { d with members := d.members.add d.owner x }

def declareAll (d : Draft) (xs : List Declaration) : Draft := xs.foldl declare d

end Draft

/-- Attaches the members of a draft. An invalid name is reported before anything else. -/
def Catalog.build (c : Catalog) (d : Draft) : Except MemberError Catalog :=
  match d.invalid with
  | some name => .error (.badName (c.types.name d.owner) name)
  | none => c.attach d.owner d.members

end Interop
