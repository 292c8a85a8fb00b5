import Interop.Number.Basic

/-!
# TOML documents

A document is a table. Beside the values that a document writes out, a table holds the tables and
lists of tables that headers and dotted keys open in it. How a table came about decides what may
still be added to it: it is implicit while it has only been passed on the way to another one, and
dotted if the keys of dotted pairs made it.

* `Table.put?`: adds a pair with a dotted key.
* `Table.open?`, `Table.openList?`: open the table of a header.

Each of them fails where TOML forbids to define something twice or in two ways.
-/

namespace Interop.Toml

mutual

inductive Node where
  | text (s : String)
  | integer (i : Int)
  | float (x : Double)
  | boolean (b : Bool)
  | time (written : String)
  | array (items : List Node)
  | inline (t : Table)
  | table (t : Table)
  | tables (ts : List Table)

/-- A table with its entries in the order in which they were added. -/
inductive Table where
  | mk (implicit dotted : Bool) (entries : List (String × Node))

end

/-- What a table holds: the value of each key, if there is one. -/
abbrev Content := String → Option Node

namespace Table

def implicit : Table → Bool
  | mk implicit _ _ => implicit

def dotted : Table → Bool
  | mk _ dotted _ => dotted

def entries : Table → List (String × Node)
  | mk _ _ entries => entries

/-- The table of a header, or the one that a pair of braces writes out. -/
def empty : Table := mk false false []

/-- The table that is made on the way to another one. -/
def passed (dotted : Bool) : Table := mk true dotted []

def get? (t : Table) (key : String) : Option Node := t.entries.lookup key

/-- Gives a key a value, in the place of the one that it has. -/
def set (t : Table) (key : String) (n : Node) : Table :=
  let entries :=
    if (t.get? key).isSome then t.entries.map fun e => if e.1 = key then (key, n) else e
    else t.entries ++ [(key, n)]
  mk t.implicit t.dotted entries

/-- Changes the table at the end of a path. Tables that are missing on the way are made; a list of
tables stands for its last one. A path of dotted keys may not pass through the table of a header,
and no path passes through a value. -/
def change (viaDots : Bool) (f : Table → Option Table) : List String → Table → Option Table
  | [], t => f t
  | key :: path, t =>
    match t.get? key with
    | none => (change viaDots f path (passed viaDots)).map fun sub => t.set key (.table sub)
    | some (.table sub) =>
      if viaDots && !sub.implicit then none
      else (change viaDots f path sub).map fun sub => t.set key (.table sub)
    | some (.tables ts) =>
      match ts.getLast? with
      | some sub =>
        (change viaDots f path sub).map fun sub => t.set key (.tables (ts.dropLast ++ [sub]))
      | none => none
    | some _ => none

/-- Adds a new key. -/
def add? (t : Table) (key : String) (n : Node) : Option Table :=
  if (t.get? key).isSome then none else some (t.set key n)

/-- Adds a pair whose key is `key` below the dotted path `path`. Dotted keys add to dotted tables
only, and a key without dots does not. -/
def put? (path : List String) (key : String) (n : Node) (t : Table) : Option Table :=
  change true (fun sub => if sub.dotted == path.isEmpty then none else sub.add? key n) path t

/-- Opens the table of a header, where there is none yet but an implicit one that is not dotted. -/
def open? (path : List String) (key : String) (t : Table) : Option Table :=
  change false
    (fun parent =>
      match parent.get? key with
      | none => some (parent.set key (.table empty))
      | some (.table sub) =>
        if sub.implicit && !sub.dotted then
          some (parent.set key (.table (mk false false sub.entries)))
        else none
      | some _ => none)
    path t

/-- Opens one more table in the list of tables that a doubled header names. -/
def openList? (path : List String) (key : String) (t : Table) : Option Table :=
  change false
    (fun parent =>
      match parent.get? key with
      | none => some (parent.set key (.tables [empty]))
      | some (.tables ts) => some (parent.set key (.tables (ts ++ [empty])))
      | some _ => none)
    path t

end Table

end Interop.Toml
