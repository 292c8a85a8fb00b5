import Interop.Toml.Scalar

/-!
# Reading TOML

* `value?`: a value; arrays and inline tables hold further values up to a depth.
* `Table.ofText?`: the table of a whole document, a line of pairs, headers or comments at a time.
-/

namespace Interop.Toml

/-! ## Values -/

/-- Reads the values of an array up to its closing bracket, with commas between them and spaces,
newlines and comments around them. `fuel` bounds their count. -/
def arrayItems (item : List Char → Option (Node × List Char)) :
    Nat → List Char → Option (List Node × List Char)
  | 0, _ => none
  | fuel + 1, cs =>
    (skipVoid false cs).bind fun cs =>
      match cs with
      | ']' :: cs => some ([], cs)
      | cs => do
        let (n, cs) ← item cs
        match ← skipVoid false cs with
        | ',' :: cs => (arrayItems item fuel cs).map fun (ns, cs) => (n :: ns, cs)
        | ']' :: cs => some ([n], cs)
        | _ => none

/-- Reads a key, an equals sign and a value. -/
def pair? (item : List Char → Option (Node × List Char)) (cs : List Char) :
    Option ((List String × String × Node) × List Char) := do
  let (path, key, cs) ← keyPath cs
  let (n, cs) ← item (skipSpaces (← expect '=' cs))
  return ((path, key, n), cs)

/-- Reads the pairs of an inline table up to its closing brace, one at least, and adds them. -/
def inlinePairs (item : List Char → Option (Node × List Char)) :
    Nat → Table → List Char → Option (Table × List Char)
  | 0, _, _ => none
  | fuel + 1, t, cs => do
    let ((path, key, n), cs) ← pair? item cs
    let t ← t.put? path key n
    match skipSpaces cs with
    | ',' :: cs => inlinePairs item fuel t cs
    | '}' :: cs => some (t, cs)
    | _ => none

/-- Reads a value in which arrays and inline tables are nested at most `depth` times. -/
def value? : Nat → List Char → Option (Node × List Char)
  | depth, '[' :: cs =>
    match depth with
    | 0 => none
    | depth + 1 =>
      (arrayItems (value? depth) (cs.length + 1) cs).map fun (ns, cs) => (.array ns, cs)
  | depth, '{' :: cs =>
    match depth with
    | 0 => none
    | depth + 1 =>
      match skipSpaces cs with
      | '}' :: cs => some (.inline .empty, cs)
      | cs =>
        (inlinePairs (value? depth) (cs.length + 1) .empty cs).map fun (t, cs) => (.inline t, cs)
  | _, cs =>
    match string? cs with
    | some (s, cs) => some (.text s, cs)
    | none =>
      let (chars, rest) := scalarChars cs
      (scalar? chars).map fun n => (n, rest)

/-! ## Documents -/

/-- A document as far as it has been read: its table, and the path of the header that the next
pairs belong to. -/
structure Draft where
  root : Table
  header : List String

namespace Draft

def empty : Draft := ⟨.empty, []⟩

/-- Adds a pair to the table of the last header. -/
def put? (d : Draft) (path : List String) (key : String) (n : Node) : Option Draft :=
  (Table.change false (·.put? path key n) d.header d.root).map fun root => { d with root }

def open? (d : Draft) (path : List String) (key : String) : Option Draft :=
  (d.root.open? path key).map fun root => ⟨root, path ++ [key]⟩

def openList? (d : Draft) (path : List String) (key : String) : Option Draft :=
  (d.root.openList? path key).map fun root => ⟨root, path ++ [key]⟩

/-- Reads a header after its opening bracket, or a pair, up to the end of the line. -/
def statement? (d : Draft) : List Char → Option (Draft × List Char)
  | '[' :: '[' :: cs => do
    let (path, key, cs) ← keyPath cs
    let cs ← lineEnd? (← expect ']' (← expect ']' cs))
    return (← d.openList? path key, cs)
  | '[' :: cs => do
    let (path, key, cs) ← keyPath cs
    let cs ← lineEnd? (← expect ']' cs)
    return (← d.open? path key, cs)
  | cs => do
    let ((path, key, n), cs) ← pair? (value? (nestingLimit - 1)) cs
    let cs ← lineEnd? cs
    return (← d.put? path key n, cs)

/-- Reads statements, blank lines and comments to the end. `fuel` bounds the count of lines. -/
def lines (d : Draft) : Nat → List Char → Option Draft
  | 0, _ => none
  | fuel + 1, cs =>
    match skipSpaces cs with
    | [] => some d
    | c :: cs =>
      if c = '#' || c = '\n' || c = '\r' then
        (lineEnd? (c :: cs)).bind (lines d fuel)
      else (d.statement? (c :: cs)).bind fun (d, cs) => lines d fuel cs

end Draft

/-- The table of a document. A byte order mark may stand before it. -/
def Table.ofText? (text : String) : Option Table :=
  let cs := match text.toList with
    | '\uFEFF' :: cs => cs
    | cs => cs
  (Draft.empty.lines (cs.length + 1) cs).map Draft.root

end Interop.Toml
