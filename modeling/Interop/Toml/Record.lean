import Interop.Toml.Scan
import Interop.Toml.Table

/-!
# Records of TOML

A record is what a structure with named fields becomes: a key and a value for each field, where no
key needs quotes and no text needs escapes.

* `IsRecord`: the pairs of a record.
* `IsDocument`: the documents of TOML that have the pairs of a record, one on each line.
* `recordText?`: one of these documents, as long as the counts are integers of TOML.
-/

namespace Interop.Toml

/-- Whether a text is written between quotes as it is. A tab could stand there, but is written as an
escape. -/
def isPlain (s : String) : Bool :=
  s.toList.all fun c => isPrintable c && c ≠ '\t' && c ≠ '"' && c ≠ '\\'

def isBareKey (key : String) : Bool := !key.toList.isEmpty && key.toList.all isBareKeyChar

/-- Keys without quotes, each of them once, for texts without escapes and counts. -/
structure IsRecord (fields : List (String × Node)) : Prop where
  distinct : (fields.map Prod.fst).Nodup
  bare : ∀ e ∈ fields, isBareKey e.1
  simple : ∀ e ∈ fields, (∃ s, isPlain s ∧ e.2 = .text s) ∨ ∃ n : Nat, e.2 = .integer n

/-- Whether the integers among the values have 64 bits at most. -/
def FitsInt64 (fields : List (String × Node)) : Prop :=
  ∀ e ∈ fields, ∀ i, e.2 = .integer i → Number.fitsInt64 i

/-! ## Documents -/

/-- How a text without escapes and a count are written. -/
inductive Node.IsWritten : Node → List Char → Prop
  | text (s : String) (hs : isPlain s) : IsWritten (.text s) ('"' :: (s.toList ++ ['"']))
  | count (n : Nat) : IsWritten (.integer n) (Nat.toDigits 10 n)

/-- A document that has a line for each pair: the key, an equals sign with any spaces around it, and
the value. -/
inductive IsDocument : List (String × Node) → List Char → Prop
  | nil : IsDocument [] []
  | cons {key : String} {n : Node} {written before after cs : List Char}
      {fields : List (String × Node)} (hkey : isBareKey key) (hvalue : n.IsWritten written)
      (hbefore : ∀ c ∈ before, isSpace c) (hafter : ∀ c ∈ after, isSpace c)
      (hrest : IsDocument fields cs) :
      IsDocument ((key, n) :: fields)
        (key.toList ++ (before ++ '=' :: (after ++ (written ++ '\n' :: cs))))

/-! ## Writing -/

/-- The characters of a text without escapes or of a count. -/
def Node.written? : Node → Option (List Char)
  | .text s => if isPlain s then some ('"' :: (s.toList ++ ['"'])) else none
  | .integer i =>
    if 0 ≤ i && Number.fitsInt64 i then some (Nat.toDigits 10 i.toNat) else none
  | _ => none

/-- Writes a line for each pair, with one space on either side of the equals sign. -/
def recordLines? : List (String × Node) → Option (List Char)
  | [] => some []
  | (key, n) :: fields =>
    if isBareKey key then do
      let written ← n.written?
      let rest ← recordLines? fields
      return key.toList ++ ([' '] ++ '=' :: ([' '] ++ (written ++ '\n' :: rest)))
    else none

def recordText? (fields : List (String × Node)) : Option String :=
  (recordLines? fields).map String.ofList

end Interop.Toml
