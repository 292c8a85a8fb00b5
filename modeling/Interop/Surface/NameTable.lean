/-!
# Tables by name

A table by name lists its entries by increasing name, each name once. Names are ordered by their
code points, which is also the order of their UTF-8 bytes.

* `sortNames`: the distinct names of a list in increasing order.
* `NameTable.build`: the table of a function on the names that a list mentions.
-/

namespace Interop

/-- Puts a name into its place in an increasing list that may have it already. -/
def insertName (name : String) : List String → List String
  | [] => [name]
  | other :: rest =>
    if name < other then name :: other :: rest
    else if name = other then other :: rest
    else other :: insertName name rest

def sortNames (names : List String) : List String := names.foldr insertName []

structure NameTable (α : Type) where
  entries : List (String × α)

namespace NameTable

variable {α : Type}

def empty : NameTable α := ⟨[]⟩

/-- The table of the names that occur in `names` and have a value. -/
def build (names : List String) (value? : String → Option α) : NameTable α :=
  ⟨(sortNames names).filterMap fun name => (value? name).map (name, ·)⟩

def names (t : NameTable α) : List String := t.entries.map Prod.fst

def get? (t : NameTable α) (name : String) : Option α := t.entries.lookup name

def size (t : NameTable α) : Nat := t.entries.length

end NameTable

end Interop
