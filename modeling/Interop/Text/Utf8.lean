/-!
# UTF-8

Byte text falls into pieces: well-formed sequences, each with its character, and invalid parts. An
invalid part is as long as it can be while it still begins some well-formed sequence; a byte that
begins none is a part of its own.

* `Utf8.pieces`: the pieces, in order. Together they hold every byte once.
* `Utf8.decode?`: the characters of a text without an invalid part.
* `Utf8.decodeLossy`: the characters with one U+FFFD for each invalid part.
-/

namespace Interop.Utf8

/-- A range of bytes, its two ends included. -/
structure ByteRange where
  first : UInt8
  last : UInt8

def ByteRange.contains (r : ByteRange) (b : UInt8) : Bool := r.first ≤ b && b ≤ r.last

/-- The bytes that continue a sequence where nothing more is required of them. -/
def continuation : ByteRange := ⟨0x80, 0xBF⟩

/-- The ranges of the bytes that follow the first byte of a well-formed sequence, or `none` for a
byte that begins no sequence. The narrower ranges leave out overlong forms, surrogates and values
above U+10FFFF. -/
def followers? (b : UInt8) : Option (List ByteRange) :=
  if b < 0x80 then some []
  else if b < 0xC2 then none
  else if b < 0xE0 then some [continuation]
  else if b = 0xE0 then some [⟨0xA0, 0xBF⟩, continuation]
  else if b = 0xED then some [⟨0x80, 0x9F⟩, continuation]
  else if b < 0xF0 then some [continuation, continuation]
  else if b = 0xF0 then some [⟨0x90, 0xBF⟩, continuation, continuation]
  else if b < 0xF4 then some [continuation, continuation, continuation]
  else if b = 0xF4 then some [⟨0x80, 0x8F⟩, continuation, continuation]
  else none

/-- The longest run of leading bytes that lie in the successive ranges. -/
def within : List ByteRange → List UInt8 → List UInt8
  | r :: ranges, b :: bytes => if r.contains b then b :: within ranges bytes else []
  | _, _ => []

/-- The scalar value of a well-formed sequence: the payload bits of the bytes, first byte first. -/
def scalar (b : UInt8) (tail : List UInt8) : Nat :=
  let lead := if tail.isEmpty then b.toNat else b.toNat % 1 <<< (6 - tail.length)
  tail.foldl (fun n c => 64 * n + c.toNat % 64) lead

/-- The bytes of a well-formed sequence with its character, or of an invalid part. -/
structure Piece where
  bytes : List UInt8
  char? : Option Char

/-- The piece that begins with `b`. -/
def firstPiece (b : UInt8) (bytes : List UInt8) : Piece :=
  match followers? b with
  | none => ⟨[b], none⟩
  | some ranges =>
    let tail := within ranges bytes
    ⟨b :: tail, if tail.length = ranges.length then some (Char.ofNat (scalar b tail)) else none⟩

/-- The pieces of `bytes`, put in front of those already found, which stand in reverse order. -/
def piecesFrom (found : List Piece) : List UInt8 → List Piece
  | [] => found.reverse
  | b :: bytes =>
    let piece := firstPiece b bytes
    piecesFrom (piece :: found) (bytes.drop (piece.bytes.length - 1))
  termination_by bytes => bytes.length
  decreasing_by simp only [List.length_drop, List.length_cons]; omega

def pieces (bytes : List UInt8) : List Piece := piecesFrom [] bytes

/-- The characters of well-formed bytes. -/
def decode? (bytes : List UInt8) : Option (List Char) :=
  (pieces bytes).mapM Piece.char?

def isValid (bytes : List UInt8) : Bool := (pieces bytes).all fun p => p.char?.isSome

/-- The character that stands for an invalid part. -/
def replacement : Char := '\uFFFD'

def decodeLossy (bytes : List UInt8) : String :=
  String.ofList ((pieces bytes).map fun p => p.char?.getD replacement)

end Interop.Utf8
