import Interop.Call.Settings
import Interop.Toml.Document

/-!
# A format for settings

* `SettingsFormat.reference`: the reader of TOML and the writer of records of this library, with
  readers for the values of settings.
-/

namespace Interop

/-! ## Values -/

/-- Whether a node can stand beside the name of a choice: nothing may be in it. -/
def Toml.Node.isBlank : Toml.Node → Bool
  | .array items => items.isEmpty
  | .inline t => t.entries.isEmpty
  | .table t => t.entries.isEmpty
  | .tables ts => ts.isEmpty
  | _ => false

/-- Reads the name of a tie-break, or a table whose only key is that name. -/
def TieBreak.ofNode? : Toml.Node → Option TieBreak
  | .text key => ofKey? key
  | .inline t => ofTable? t
  | .table t => ofTable? t
  | _ => none
where
  ofTable? (t : Toml.Table) : Option TieBreak :=
    match t.entries with
    | [(key, n)] => if n.isBlank then ofKey? key else none
    | _ => none

/-- Reads a count. -/
def natOfNode? : Toml.Node → Option Nat
  | .integer i => if 0 ≤ i then some i.toNat else none
  | _ => none

/-- Reads the value of a key, or takes the default. -/
def settingOr {α : Type} (content : Toml.Content) (key : String) (read? : Toml.Node → Option α)
    (default : α) : Option α :=
  match content key with
  | some n => read? n
  | none => some default

def CallRules.ofContent? (content : Toml.Content) : Option CallRules := do
  let tieBreak ← settingOr content "tie-break" TieBreak.ofNode? default.tieBreak
  let maxArity ← settingOr content "max-arity" natOfNode? default.maxArity
  return ⟨tieBreak, maxArity⟩

/-! ## The format -/

def SettingsFormat.reference : SettingsFormat where
  parse? text := (Toml.Table.ofText? text).map Toml.Table.get?
  write? := Toml.recordText?
  decode? := CallRules.ofContent?

end Interop
