import Interop.Proofs.Text.Utf8

/-!
# Bytes that are no text

Any bytes can be read if what is not UTF-8 may be lost. The reading keeps every character and puts
U+FFFD in place of each invalid part, and it says beforehand whether there is one.

* `Utf8.InvalidPart`: the bytes that one U+FFFD stands for.
* `Utf8.ReadsAs`: the characters that bytes are read as. `Utf8.readsAs_iff`: they are what
  `Utf8.decodeLossy` gives.
* `Utf8.isValid_iff`: the check is that for UTF-8.
* `Utf8.toUTF8_decodeLossy_iff`: the bytes come back exactly if they are UTF-8.
-/

namespace Interop.Utf8

variable {b : UInt8} {bytes part rest tail : List UInt8} {ranges : List ByteRange} {c : Char}
  {text : List Char}

/-! ## Readings -/

/-- Some character is encoded by bytes that begin like this. -/
def Begins (part : List UInt8) : Prop := ∃ c, part <+: String.utf8EncodeChar c

/-- No character stands at `part` and the bytes that follow it, and `part` is as long as it can be
while a character could still begin so. A byte that begins no character is a part of its own. -/
structure InvalidPart (part rest : List UInt8) : Prop where
  noChar : ∀ c, ¬ String.utf8EncodeChar c <+: part ++ rest
  begins : part.length = 1 ∨ part ≠ [] ∧ Begins part
  longest : ∀ longer, longer <+: part ++ rest → Begins longer → longer.length ≤ part.length

/-- The bytes are read as these characters: each encoded character is kept, and U+FFFD is put in
place of each invalid part, in order. -/
inductive ReadsAs : List UInt8 → List Char → Prop
  | nil : ReadsAs [] []
  | char {bytes : List UInt8} {text : List Char} (c : Char) (others : ReadsAs bytes text) :
      ReadsAs (String.utf8EncodeChar c ++ bytes) (c :: text)
  | invalid {part rest : List UInt8} {text : List Char} (hp : InvalidPart part rest)
      (others : ReadsAs rest text) : ReadsAs (part ++ rest) (replacement :: text)

/-! ## Invalid parts -/

theorem InvalidPart.ne_nil (h : InvalidPart part rest) : part ≠ [] := by
  rintro rfl
  rcases h.begins with hlength | ⟨hne, -⟩
  · cases hlength
  · exact hne rfl

/-- Of two parts, the first is no longer than the second. -/
theorem InvalidPart.length_le {part' rest' : List UInt8} (h : InvalidPart part rest)
    (h' : InvalidPart part' rest') (heq : part ++ rest = part' ++ rest') :
    part.length ≤ part'.length := by
  rcases h.begins with hlength | ⟨-, hb⟩
  · have hpos := List.length_pos_iff.mpr h'.ne_nil
    omega
  · exact h'.longest part (heq ▸ List.prefix_append part rest) hb

/-- An invalid part is the only one where it stands. -/
theorem InvalidPart.unique {part' rest' : List UInt8} (h : InvalidPart part rest)
    (h' : InvalidPart part' rest') (heq : part ++ rest = part' ++ rest') :
    part = part' ∧ rest = rest' :=
  List.append_inj heq (Nat.le_antisymm (h.length_le h' heq) (h'.length_le h heq.symm))

/-- Every range of bytes after a first one has its ends in order. -/
theorem contains_first_of_followers? (h : followers? b = some ranges) :
    ∀ r ∈ ranges, r.contains r.first := by
  rw [followers?_eq] at h
  repeat' split at h
  all_goals cases h <;> decide

/-- Bytes in the first ranges can be continued by bytes in the others. -/
theorem exists_forall₂_within (h : ∀ r ∈ ranges, r.contains r.first) (bytes : List UInt8) :
    ∃ more, List.Forall₂ (fun r b => r.contains b) ranges (within ranges bytes ++ more) := by
  induction ranges generalizing bytes with
  | nil => exact ⟨[], .nil⟩
  | cons r ranges ih =>
    have ih := ih fun s hs => h s (List.mem_cons_of_mem _ hs)
    have stop : ∃ more, List.Forall₂ (fun r b => r.contains b) (r :: ranges) ([] ++ more) := by
      obtain ⟨more, hmore⟩ := ih []
      exact ⟨_, .cons (h r List.mem_cons_self) hmore⟩
    cases bytes with
    | nil => exact stop
    | cons b bytes =>
      rw [within]
      split
      · rename_i hb
        obtain ⟨more, hmore⟩ := ih bytes
        exact ⟨more, .cons hb hmore⟩
      · exact stop

/-- Bytes in the first ranges that stand at the beginning are among those that are taken. -/
theorem length_le_within (h : List.Forall₂ (fun r b => r.contains b) ranges tail)
    {front : List UInt8} (htail : front <+: tail) (hbytes : front <+: bytes) :
    front.length ≤ (within ranges bytes).length := by
  induction h generalizing front bytes with
  | nil =>
    rw [List.prefix_nil.mp htail]
    exact Nat.zero_le _
  | @cons r x ranges tail hx _ ih =>
    rcases List.prefix_cons_iff.mp htail with rfl | ⟨front, rfl, hfront⟩
    · exact Nat.zero_le _
    · obtain ⟨others, rfl⟩ := hbytes
      rw [List.cons_append, within, if_pos hx]
      exact Nat.succ_le_succ (ih hfront (List.prefix_append front others))

/-- A character that begins with `b` goes on with bytes in the ranges after `b`. -/
theorem forall₂_of_cons_prefix {front : List UInt8} (h : b :: front <+: String.utf8EncodeChar c) :
    ∃ ranges tail, followers? b = some ranges ∧
      List.Forall₂ (fun r b => r.contains b) ranges tail ∧ front <+: tail := by
  obtain ⟨b', tail, hf, -, henc⟩ := exists_encoding c
  rw [henc, List.cons_prefix_cons] at h
  obtain ⟨rfl, hfront⟩ := h
  obtain ⟨ranges, hr, hall⟩ := hf.followers?
  exact ⟨ranges, tail, hr, hall, hfront⟩

/-- No character stands where the first piece is not read. -/
theorem not_prefix_of_firstPiece (h : (firstPiece b bytes).char? = none) :
    ¬ String.utf8EncodeChar c <+: b :: bytes := by
  rintro ⟨rest, hrest⟩
  obtain ⟨b', tail, hf, -, henc⟩ := exists_encoding c
  rw [henc, List.cons_append] at hrest
  obtain ⟨rfl, rfl⟩ := List.cons.inj hrest
  rw [firstPiece_of_follow hf] at h
  cases h

/-- **Invalid parts.** A first piece that is not read is an invalid part. -/
theorem invalidPart_firstPiece (h : (firstPiece b bytes).char? = none) :
    ∃ tail rest, bytes = tail ++ rest ∧ (firstPiece b bytes).bytes = b :: tail ∧
      InvalidPart (b :: tail) rest := by
  have noChar : ∀ c, ¬ String.utf8EncodeChar c <+: b :: bytes := fun c =>
    not_prefix_of_firstPiece h
  cases hr : followers? b with
  | none =>
    refine ⟨[], bytes, rfl, by simp only [firstPiece, hr], noChar, .inl rfl, ?_⟩
    rintro longer hprefix ⟨c, hc⟩
    rcases List.prefix_cons_iff.mp hprefix with rfl | ⟨front, rfl, -⟩
    · exact Nat.zero_le _
    · obtain ⟨ranges, tail, hr', -⟩ := forall₂_of_cons_prefix hc
      rw [hr] at hr'
      cases hr'
  | some ranges =>
    obtain ⟨rest, hrest⟩ := within_prefix ranges bytes
    refine ⟨within ranges bytes, rest, hrest, by simp only [firstPiece, hr], ?_,
      .inr ⟨List.cons_ne_nil _ _, ?_⟩, ?_⟩
    · rw [List.cons_append, ← hrest]
      exact noChar
    · obtain ⟨more, hall⟩ := exists_forall₂_within (contains_first_of_followers? hr) bytes
      have henc := (follow_of_followers? hr hall).encode
      exact ⟨_, more, by rw [henc, List.cons_append]⟩
    · rw [List.cons_append, ← hrest]
      rintro longer hprefix ⟨c, hc⟩
      rcases List.prefix_cons_iff.mp hprefix with rfl | ⟨front, rfl, hfront⟩
      · exact Nat.zero_le _
      · obtain ⟨ranges', tail, hr', hall, htail⟩ := forall₂_of_cons_prefix hc
        rw [hr] at hr'
        cases hr'
        exact Nat.succ_le_succ (length_le_within hall htail hfront)

/-! ## Lossy texts -/

theorem toList_decodeLossy (bytes : List UInt8) :
    (decodeLossy bytes).toList = (pieces bytes).map fun p => p.char?.getD replacement :=
  String.toList_ofList

theorem toList_decodeLossy_nil : (decodeLossy []).toList = [] := by
  rw [toList_decodeLossy, pieces, piecesFrom]
  rfl

theorem toList_decodeLossy_append (c : Char) (bytes : List UInt8) :
    (decodeLossy (String.utf8EncodeChar c ++ bytes)).toList =
      c :: (decodeLossy bytes).toList := by
  obtain ⟨b, tail, hf, hc, henc⟩ := exists_encoding c
  rw [toList_decodeLossy, toList_decodeLossy, henc, List.cons_append, pieces_cons,
    firstPiece_of_follow hf, List.map_cons, List.length_cons, Nat.add_sub_cancel, List.drop_left,
    hc]
  rfl

/-- An invalid part is read as one U+FFFD. -/
theorem toList_decodeLossy_invalid (hp : InvalidPart part rest) :
    (decodeLossy (part ++ rest)).toList = replacement :: (decodeLossy rest).toList := by
  cases part with
  | nil => exact absurd rfl hp.ne_nil
  | cons b front =>
    have hnone : (firstPiece b (front ++ rest)).char? = none := by
      by_contra hsome
      obtain ⟨c, hc⟩ := Option.ne_none_iff_exists'.mp hsome
      obtain ⟨tail, after, hsplit, hf⟩ := follow_of_firstPiece hc
      refine hp.noChar (Char.ofNat (scalar b tail)) ⟨after, ?_⟩
      rw [hf.encode, List.cons_append, List.cons_append, hsplit]
    obtain ⟨tail, after, hsplit, hbytes, hp'⟩ := invalidPart_firstPiece hnone
    obtain ⟨hfront, hrest⟩ := hp.unique hp' (by rw [List.cons_append, List.cons_append, hsplit])
    obtain ⟨-, rfl⟩ := List.cons.inj hfront
    rw [toList_decodeLossy, toList_decodeLossy, List.cons_append, pieces_cons, List.map_cons,
      hnone, hbytes, List.length_cons, Nat.add_sub_cancel, List.drop_left]
    rfl

theorem ReadsAs.eq_decodeLossy (h : ReadsAs bytes text) : text = (decodeLossy bytes).toList := by
  induction h with
  | nil => rw [toList_decodeLossy_nil]
  | char c _ ih => rw [toList_decodeLossy_append, ih]
  | invalid hp _ ih => rw [toList_decodeLossy_invalid hp, ih]

theorem readsAs_decodeLossy (bytes : List UInt8) : ReadsAs bytes (decodeLossy bytes).toList := by
  induction hn : bytes.length using Nat.strongRecOn generalizing bytes with
  | ind n ih =>
    subst hn
    cases bytes with
    | nil =>
      rw [toList_decodeLossy_nil]
      exact .nil
    | cons b bytes =>
      cases hc : (firstPiece b bytes).char? with
      | some c =>
        obtain ⟨tail, rest, rfl, hf⟩ := follow_of_firstPiece hc
        rw [← List.cons_append, ← hf.encode, toList_decodeLossy_append]
        exact .char _ (ih _ (by rw [List.length_cons, List.length_append]; omega) rest rfl)
      | none =>
        obtain ⟨tail, rest, rfl, -, hp⟩ := invalidPart_firstPiece hc
        rw [← List.cons_append, toList_decodeLossy_invalid hp]
        exact .invalid hp (ih _ (by rw [List.length_cons, List.length_append]; omega) rest rfl)

/-- **Lossy reading.** The characters that bytes are read as are those of the lossy text. -/
theorem readsAs_iff : ReadsAs bytes text ↔ text = (decodeLossy bytes).toList :=
  ⟨ReadsAs.eq_decodeLossy, fun h => h ▸ readsAs_decodeLossy bytes⟩

/-! ## UTF-8 -/

theorem isValidUTF8_iff : bytes.toByteArray.IsValidUTF8 ↔
    ∃ text : List Char, bytes = text.flatMap String.utf8EncodeChar := by
  constructor
  · rintro ⟨text, heq⟩
    exact ⟨text, List.toByteArray_inj.mp heq⟩
  · rintro ⟨text, rfl⟩
    exact ⟨text, rfl⟩

/-- All pieces are characters exactly if the characters of all of them can be read. -/
private theorem all_char?_eq (ps : List Piece) :
    (ps.all fun p => p.char?.isSome) = (ps.mapM Piece.char?).isSome := by
  induction ps with
  | nil => rfl
  | cons p ps ih =>
    rw [List.all_cons, List.mapM_cons, ih]
    cases p.char? with
    | none => rfl
    | some c =>
      show (ps.mapM Piece.char?).isSome =
        ((ps.mapM Piece.char?).bind fun cs => some (c :: cs)).isSome
      cases ps.mapM Piece.char? <;> rfl

/-- **The check.** Bytes pass it exactly if they are UTF-8. -/
theorem isValid_iff : isValid bytes = true ↔ bytes.toByteArray.IsValidUTF8 := by
  rw [isValidUTF8_iff, isValid, all_char?_eq, ← decode?, Option.isSome_iff_exists]
  simp only [decode?_eq_some_iff]

theorem toList_decodeLossy_encode (text : List Char) :
    (decodeLossy (text.flatMap String.utf8EncodeChar)).toList = text := by
  induction text with
  | nil => exact toList_decodeLossy_nil
  | cons c text ih => rw [List.flatMap_cons, toList_decodeLossy_append, ih]

/-- **Losses.** The bytes come back from the text exactly if they are UTF-8. -/
theorem toUTF8_decodeLossy_iff :
    (decodeLossy bytes).toUTF8.data.toList = bytes ↔ bytes.toByteArray.IsValidUTF8 := by
  rw [isValidUTF8_iff, toList_toUTF8]
  constructor
  · intro h
    exact ⟨_, h.symm⟩
  · rintro ⟨text, rfl⟩
    rw [toList_decodeLossy_encode]

end Interop.Utf8
