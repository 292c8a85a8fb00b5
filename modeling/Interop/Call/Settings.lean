import Interop.Call.Rules
import Interop.Text.Utf8
import Interop.Toml.Record

/-!
# Settings

The rules of overload choice are written as a TOML table with two keys, `tie-break` and
`max-arity`. A missing key stands for its default, and other keys do not matter.

* `SettingsFormat`: what a host is given to read and write TOML, with `SettingsFormat.Conforms` for
  what it relies on.
* `CallRules.ofText`: reads settings. The text has to be TOML with values of the right types before
  their validity is looked at.
* `CallRules.toText?`: writes settings.
-/

namespace Interop

inductive SettingsError where
  | unreadable
  | malformed
  | arityTooLarge (requested limit : Nat)
  deriving DecidableEq, Repr

/-- The text of an error. Unreadable files and malformed texts are described by what reads them. -/
def SettingsError.message? : SettingsError → Option String
  | unreadable => none
  | malformed => none
  | arityTooLarge requested limit =>
    some ("Invalid interop config: max-arity " ++ toString requested ++ " exceeds the limit of " ++
      toString limit)

/-! ## The format -/

/-- A library for TOML, with a reader of rules for the tables that it finds. None of this is part of
a host.

- `parse?`: the table of a text;
- `write?`: a text for the fields of a structure;
- `decode?`: the rules of a table. -/
structure SettingsFormat where
  parse? : String → Option Toml.Content
  write? : List (String × Toml.Node) → Option String
  decode? : Toml.Content → Option CallRules

/-- What a table says of a setting: the value of its key, or a fallback if the key is missing. -/
inductive Toml.Content.Sets {α : Type} (content : Toml.Content) (key : String)
    (node : α → Toml.Node) (fallback : α) : α → Prop
  | value (a : α) (h : content key = some (node a)) : Sets content key node fallback a
  | missing (h : content key = none) : Sets content key node fallback fallback

/-- What a host relies on.

- `parses`: a document of TOML with the pairs of a record is read as its table, if the integers in
  it have 64 bits at most;
- `writes`: a record that is written becomes such a document;
- `writable`: a record is written unless an integer in it has more than 64 bits;
- `decodes`: each of the two settings is found under its name, whatever else a table holds and as
  long as the limit has 64 bits at most. -/
structure SettingsFormat.Conforms (f : SettingsFormat) : Prop where
  parses : ∀ fields text, Toml.IsRecord fields → Toml.FitsInt64 fields →
    Toml.IsDocument fields text.toList → f.parse? text = some fun key => fields.lookup key
  writes : ∀ fields text, Toml.IsRecord fields → f.write? fields = some text →
    Toml.IsDocument fields text.toList
  writable : ∀ fields, Toml.IsRecord fields →
    ((f.write? fields).isSome ↔ Toml.FitsInt64 fields)
  decodes : ∀ content tieBreak (maxArity : Nat), Number.fitsInt64 maxArity →
    content.Sets "tie-break" (.text ∘ TieBreak.key) CallRules.default.tieBreak tieBreak →
    content.Sets "max-arity" (fun n : Nat => .integer n) CallRules.default.maxArity maxArity →
    f.decode? content = some ⟨tieBreak, maxArity⟩

/-! ## Settings -/

namespace CallRules

def validate (r : CallRules) : Except SettingsError Unit :=
  if r.isValid then .ok () else .error (.arityTooLarge r.maxArity Score.arityLimit)

def ofText (f : SettingsFormat) (text : String) : Except SettingsError CallRules :=
  match (f.parse? text).bind f.decode? with
  | some r => r.validate.map fun _ => r
  | none => .error .malformed

/-- Reads the content of a file, if there is one. -/
def ofFile (f : SettingsFormat) (content : Option (List UInt8)) :
    Except SettingsError CallRules :=
  match content.bind Utf8.decode? with
  | some text => ofText f (String.ofList text)
  | none => .error .unreadable

/-- The settings with their names. -/
def fields (r : CallRules) : List (String × Toml.Node) :=
  [("tie-break", .text r.tieBreak.key), ("max-arity", .integer r.maxArity)]

def toText? (f : SettingsFormat) (r : CallRules) : Option String := f.write? r.fields

end CallRules

end Interop
