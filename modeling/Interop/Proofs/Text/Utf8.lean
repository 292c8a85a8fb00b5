import Interop.Text.Utf8
import Mathlib.Data.List.Forall2

/-!
# UTF-8 texts

Reading bytes gives the characters that they encode, and bytes that encode no text are not read.

* `Utf8.Follow`: the bytes after a first one that make a well-formed sequence with it.
* `Utf8.Follow.encode`: such a sequence encodes its scalar value. `Utf8.exists_encoding`: every
  character is encoded by one.
* `Utf8.decode?_eq_some_iff`: bytes are read as a text iff they are its encoding.
-/

namespace Interop.Utf8

variable {b : UInt8} {bytes tail : List UInt8} {ranges : List ByteRange} {c : Char}

/-! ## Bytes as numbers -/

theorem ByteRange.contains_iff (r : ByteRange) (b : UInt8) :
    r.contains b ↔ r.first.toNat ≤ b.toNat ∧ b.toNat ≤ r.last.toNat := by
  simp [ByteRange.contains, UInt8.le_iff_toNat_le]

theorem contains_continuation (b : UInt8) :
    continuation.contains b ↔ 128 ≤ b.toNat ∧ b.toNat < 192 := by
  rw [ByteRange.contains_iff]
  show 128 ≤ b.toNat ∧ b.toNat ≤ 191 ↔ _
  omega

/-- The ranges after a first byte, by its value. -/
theorem followers?_eq (b : UInt8) : followers? b =
    if b.toNat < 128 then some []
    else if b.toNat < 194 then none
    else if b.toNat < 224 then some [continuation]
    else if b.toNat = 224 then some [⟨0xA0, 0xBF⟩, continuation]
    else if b.toNat = 237 then some [⟨0x80, 0x9F⟩, continuation]
    else if b.toNat < 240 then some [continuation, continuation]
    else if b.toNat = 240 then some [⟨0x90, 0xBF⟩, continuation, continuation]
    else if b.toNat < 244 then some [continuation, continuation, continuation]
    else if b.toNat = 244 then some [⟨0x80, 0x8F⟩, continuation, continuation]
    else none := by
  simp only [followers?, UInt8.lt_iff_toNat_lt, ← UInt8.toNat_inj, UInt8.reduceToNat]

/-! ## Well-formed sequences -/

/-- `b` and then the bytes of a list make a well-formed sequence: no overlong form, no surrogate,
nothing above the greatest scalar value. -/
inductive Follow (b : UInt8) : List UInt8 → Prop
  | one (hb : b.toNat < 128) : Follow b []
  | two {b₁ : UInt8} (hb : 194 ≤ b.toNat) (hb' : b.toNat < 224) (h₁ : continuation.contains b₁) :
      Follow b [b₁]
  | three {b₁ b₂ : UInt8} (hb : 224 ≤ b.toNat) (hb' : b.toNat < 240)
      (h₁ : continuation.contains b₁) (h₂ : continuation.contains b₂)
      (short : b.toNat = 224 → 160 ≤ b₁.toNat) (surrogate : b.toNat = 237 → b₁.toNat < 160) :
      Follow b [b₁, b₂]
  | four {b₁ b₂ b₃ : UInt8} (hb : 240 ≤ b.toNat) (hb' : b.toNat < 245)
      (h₁ : continuation.contains b₁) (h₂ : continuation.contains b₂)
      (h₃ : continuation.contains b₃) (short : b.toNat = 240 → 144 ≤ b₁.toNat)
      (greatest : b.toNat = 244 → b₁.toNat < 144) : Follow b [b₁, b₂, b₃]

theorem toNat_ofNat_of_valid {v : Nat} (h : v.isValidChar) : (Char.ofNat v).val.toNat = v := by
  unfold Char.ofNat
  rw [dif_pos h]
  rfl

private theorem ofNat_eq {n : Nat} (h : b.toNat = n) : UInt8.ofNat n = b := by
  rw [← h, UInt8.ofNat_toNat]

theorem utf8EncodeChar_one {v : Nat} (hb : b.toNat = v) (hv : v < 0x80) :
    String.utf8EncodeChar (Char.ofNat v) = [b] := by
  have hvalid : v.isValidChar := .inl (by omega)
  rw [String.utf8EncodeChar, toNat_ofNat_of_valid hvalid]
  simp only [if_pos (show v ≤ 127 by omega), ofNat_eq hb]

theorem utf8EncodeChar_two {v : Nat} {b₁ : UInt8} (hb : b.toNat = 192 + v / 64)
    (h₁ : b₁.toNat = 128 + v % 64) (hv : 0x80 ≤ v) (hv' : v < 0x800) :
    String.utf8EncodeChar (Char.ofNat v) = [b, b₁] := by
  have hvalid : v.isValidChar := .inl (by omega)
  have hb : b.toNat = v / 64 % 32 + 192 := by omega
  have h₁ : b₁.toNat = v % 64 + 128 := by omega
  rw [String.utf8EncodeChar, toNat_ofNat_of_valid hvalid]
  simp only [if_neg (show ¬ v ≤ 127 by omega), if_pos (show v ≤ 2047 by omega), ofNat_eq hb,
    ofNat_eq h₁]

theorem utf8EncodeChar_three {v : Nat} {b₁ b₂ : UInt8} (hb : b.toNat = 224 + v / 4096)
    (h₁ : b₁.toNat = 128 + v / 64 % 64) (h₂ : b₂.toNat = 128 + v % 64) (hv : 0x800 ≤ v)
    (hv' : v < 0x10000) (hvalid : v.isValidChar) :
    String.utf8EncodeChar (Char.ofNat v) = [b, b₁, b₂] := by
  have hb : b.toNat = v / 4096 % 16 + 224 := by omega
  have h₁ : b₁.toNat = v / 64 % 64 + 128 := by omega
  have h₂ : b₂.toNat = v % 64 + 128 := by omega
  rw [String.utf8EncodeChar, toNat_ofNat_of_valid hvalid]
  simp only [if_neg (show ¬ v ≤ 127 by omega), if_neg (show ¬ v ≤ 2047 by omega),
    if_pos (show v ≤ 65535 by omega), ofNat_eq hb, ofNat_eq h₁, ofNat_eq h₂]

theorem utf8EncodeChar_four {v : Nat} {b₁ b₂ b₃ : UInt8} (hb : b.toNat = 240 + v / 262144)
    (h₁ : b₁.toNat = 128 + v / 4096 % 64) (h₂ : b₂.toNat = 128 + v / 64 % 64)
    (h₃ : b₃.toNat = 128 + v % 64) (hv : 0x10000 ≤ v) (hv' : v < 0x110000) :
    String.utf8EncodeChar (Char.ofNat v) = [b, b₁, b₂, b₃] := by
  have hvalid : v.isValidChar := .inr (by omega)
  have hb : b.toNat = v / 262144 % 8 + 240 := by omega
  have h₁ : b₁.toNat = v / 4096 % 64 + 128 := by omega
  have h₂ : b₂.toNat = v / 64 % 64 + 128 := by omega
  have h₃ : b₃.toNat = v % 64 + 128 := by omega
  rw [String.utf8EncodeChar, toNat_ofNat_of_valid hvalid]
  simp only [if_neg (show ¬ v ≤ 127 by omega), if_neg (show ¬ v ≤ 2047 by omega),
    if_neg (show ¬ v ≤ 65535 by omega), ofNat_eq hb, ofNat_eq h₁, ofNat_eq h₂, ofNat_eq h₃]

/-! ## Scalar values -/

theorem scalar_two (b b₁ : UInt8) : scalar b [b₁] = 64 * (b.toNat % 32) + b₁.toNat % 64 := rfl

theorem scalar_three (b b₁ b₂ : UInt8) :
    scalar b [b₁, b₂] = 64 * (64 * (b.toNat % 16) + b₁.toNat % 64) + b₂.toNat % 64 := rfl

theorem scalar_four (b b₁ b₂ b₃ : UInt8) : scalar b [b₁, b₂, b₃] =
    64 * (64 * (64 * (b.toNat % 8) + b₁.toNat % 64) + b₂.toNat % 64) + b₃.toNat % 64 := rfl

/-- A well-formed sequence encodes its scalar value. -/
theorem Follow.encode (h : Follow b tail) :
    String.utf8EncodeChar (Char.ofNat (scalar b tail)) = b :: tail := by
  cases h with
  | one hb => exact utf8EncodeChar_one rfl hb
  | two hb hb' h₁ =>
    rw [contains_continuation] at h₁
    rw [scalar_two]
    apply utf8EncodeChar_two <;> omega
  | three hb hb' h₁ h₂ short surrogate =>
    rw [contains_continuation] at h₁ h₂
    rw [scalar_three]
    apply utf8EncodeChar_three <;> omega
  | four hb hb' h₁ h₂ h₃ short greatest =>
    rw [contains_continuation] at h₁ h₂ h₃
    rw [scalar_four]
    apply utf8EncodeChar_four <;> omega

private theorem exists_byte {n : Nat} (h : n < 256) : ∃ b : UInt8, b.toNat = n :=
  ⟨UInt8.ofNat n, by rw [UInt8.toNat_ofNat', Nat.mod_eq_of_lt h]⟩

/-- Every character is the scalar value of a well-formed sequence. -/
theorem exists_follow (c : Char) : ∃ b tail, Follow b tail ∧ scalar b tail = c.toNat := by
  have hvalid : c.toNat < 0xD800 ∨ 0xDFFF < c.toNat ∧ c.toNat < 0x110000 := c.valid
  generalize c.toNat = v at hvalid
  obtain ⟨b₁, h₁⟩ := exists_byte (show 128 + v % 64 < 256 by omega)
  obtain ⟨b₂, h₂⟩ := exists_byte (show 128 + v / 64 % 64 < 256 by omega)
  obtain ⟨b₃, h₃⟩ := exists_byte (show 128 + v / 4096 % 64 < 256 by omega)
  have hc₁ : continuation.contains b₁ := (contains_continuation b₁).mpr (by omega)
  have hc₂ : continuation.contains b₂ := (contains_continuation b₂).mpr (by omega)
  have hc₃ : continuation.contains b₃ := (contains_continuation b₃).mpr (by omega)
  by_cases one : v < 0x80
  · obtain ⟨b, hb⟩ := exists_byte (show v < 256 by omega)
    exact ⟨b, [], .one (by omega), hb⟩
  by_cases two : v < 0x800
  · obtain ⟨b, hb⟩ := exists_byte (show 192 + v / 64 < 256 by omega)
    refine ⟨b, [b₁], .two (by omega) (by omega) hc₁, ?_⟩
    rw [scalar_two, hb, h₁]
    omega
  by_cases three : v < 0x10000
  · obtain ⟨b, hb⟩ := exists_byte (show 224 + v / 4096 < 256 by omega)
    refine ⟨b, [b₂, b₁], .three (by omega) (by omega) hc₂ hc₁ (by omega) (by omega), ?_⟩
    rw [scalar_three, hb, h₂, h₁]
    omega
  · obtain ⟨b, hb⟩ := exists_byte (show 240 + v / 262144 < 256 by omega)
    refine ⟨b, [b₃, b₂, b₁], .four (by omega) (by omega) hc₃ hc₂ hc₁ (by omega) (by omega), ?_⟩
    rw [scalar_four, hb, h₃, h₂, h₁]
    omega

/-- Every character is encoded by a well-formed sequence. -/
theorem exists_encoding (c : Char) :
    ∃ b tail, Follow b tail ∧ Char.ofNat (scalar b tail) = c ∧
      String.utf8EncodeChar c = b :: tail := by
  obtain ⟨b, tail, h, hv⟩ := exists_follow c
  have hc : Char.ofNat (scalar b tail) = c := by rw [hv, Char.ofNat_toNat]
  exact ⟨b, tail, h, hc, by rw [← h.encode, hc]⟩

/-! ## Pieces -/

theorem forall₂_within (h : (within ranges bytes).length = ranges.length) :
    List.Forall₂ (fun r b => r.contains b) ranges (within ranges bytes) := by
  induction ranges generalizing bytes with
  | nil => rw [within]; exact .nil; nofun
  | cons r ranges ih =>
    cases bytes with
    | nil => cases h
    | cons b bytes =>
      rw [within] at h ⊢
      split at h
      · rename_i hb
        rw [if_pos hb]
        exact .cons hb (ih (Nat.succ.inj h))
      · cases h

theorem within_append (h : List.Forall₂ (fun r b => r.contains b) ranges tail)
    (rest : List UInt8) : within ranges (tail ++ rest) = tail := by
  induction h with
  | nil => rw [within]; nofun
  | cons hb _ ih => rw [List.cons_append, within, if_pos hb, ih]

theorem within_prefix (ranges : List ByteRange) (bytes : List UInt8) :
    ∃ rest, bytes = within ranges bytes ++ rest := by
  fun_induction within ranges bytes with
  | case1 r ranges b bytes hb ih =>
    obtain ⟨rest, hrest⟩ := ih
    exact ⟨rest, by rw [List.cons_append, ← hrest]⟩
  | case2 r ranges b bytes hb => exact ⟨b :: bytes, rfl⟩
  | case3 ranges bytes => exact ⟨bytes, rfl⟩

theorem Follow.followers? (h : Follow b tail) : ∃ ranges,
    followers? b = some ranges ∧ List.Forall₂ (fun r b => r.contains b) ranges tail := by
  cases h with
  | one hb => exact ⟨_, by rw [followers?_eq, if_pos hb], .nil⟩
  | two hb hb' h₁ =>
    refine ⟨_, ?_, .cons h₁ .nil⟩
    rw [followers?_eq, if_neg (by omega), if_neg (by omega), if_pos hb']
  | @three b₁ b₂ hb hb' h₁ h₂ short surrogate =>
    have hn := (contains_continuation b₁).mp h₁
    by_cases first : b.toNat = 224
    · refine ⟨[⟨0xA0, 0xBF⟩, continuation], ?_, .cons ?_ (.cons h₂ .nil)⟩
      · simp only [followers?_eq, first, Nat.reduceLT, Nat.reduceEqDiff, if_false, if_true]
      · exact (ByteRange.contains_iff _ _).mpr ⟨short first, Nat.le_of_lt_succ hn.2⟩
    by_cases last : b.toNat = 237
    · refine ⟨[⟨0x80, 0x9F⟩, continuation], ?_, .cons ?_ (.cons h₂ .nil)⟩
      · simp only [followers?_eq, last, Nat.reduceLT, Nat.reduceEqDiff, if_false, if_true]
      · exact (ByteRange.contains_iff _ _).mpr ⟨hn.1, Nat.le_of_lt_succ (surrogate last)⟩
    · refine ⟨_, ?_, .cons h₁ (.cons h₂ .nil)⟩
      rw [followers?_eq, if_neg (by omega), if_neg (by omega), if_neg (by omega), if_neg first,
        if_neg last, if_pos hb']
  | @four b₁ b₂ b₃ hb hb' h₁ h₂ h₃ short greatest =>
    have hn := (contains_continuation b₁).mp h₁
    by_cases first : b.toNat = 240
    · refine ⟨[⟨0x90, 0xBF⟩, continuation, continuation], ?_, .cons ?_ (.cons h₂ (.cons h₃ .nil))⟩
      · simp only [followers?_eq, first, Nat.reduceLT, Nat.reduceEqDiff, if_false, if_true]
      · exact (ByteRange.contains_iff _ _).mpr ⟨short first, Nat.le_of_lt_succ hn.2⟩
    by_cases last : b.toNat = 244
    · refine ⟨[⟨0x80, 0x8F⟩, continuation, continuation], ?_, .cons ?_ (.cons h₂ (.cons h₃ .nil))⟩
      · simp only [followers?_eq, last, Nat.reduceLT, Nat.reduceEqDiff, if_false, if_true]
      · exact (ByteRange.contains_iff _ _).mpr ⟨hn.1, Nat.le_of_lt_succ (greatest last)⟩
    · refine ⟨_, ?_, .cons h₁ (.cons h₂ (.cons h₃ .nil))⟩
      rw [followers?_eq, if_neg (by omega), if_neg (by omega), if_neg (by omega),
        if_neg (by omega), if_neg (by omega), if_neg (by omega), if_neg first,
        if_pos (by omega)]

theorem follow_of_followers? (hr : followers? b = some ranges)
    (ht : List.Forall₂ (fun r b => r.contains b) ranges tail) : Follow b tail := by
  rw [followers?_eq] at hr
  split at hr
  · cases hr
    cases ht
    exact .one ‹_›
  split at hr
  · cases hr
  split at hr
  · cases hr
    obtain _ | ⟨h₁, _ | _⟩ := ht
    exact .two (by omega) ‹_› h₁
  split at hr
  · cases hr
    obtain _ | ⟨h₁, _ | ⟨h₂, _ | _⟩⟩ := ht
    have h₁ : 160 ≤ _ ∧ _ ≤ 191 := (ByteRange.contains_iff _ _).mp h₁
    exact .three (by omega) (by omega) ((contains_continuation _).mpr (by omega)) h₂ (by omega)
      (by omega)
  split at hr
  · cases hr
    obtain _ | ⟨h₁, _ | ⟨h₂, _ | _⟩⟩ := ht
    have h₁ : 128 ≤ _ ∧ _ ≤ 159 := (ByteRange.contains_iff _ _).mp h₁
    exact .three (by omega) (by omega) ((contains_continuation _).mpr (by omega)) h₂ (by omega)
      (by omega)
  split at hr
  · cases hr
    obtain _ | ⟨h₁, _ | ⟨h₂, _ | _⟩⟩ := ht
    exact .three (by omega) ‹_› h₁ h₂ (by omega) (by omega)
  split at hr
  · cases hr
    obtain _ | ⟨h₁, _ | ⟨h₂, _ | ⟨h₃, _ | _⟩⟩⟩ := ht
    have h₁ : 144 ≤ _ ∧ _ ≤ 191 := (ByteRange.contains_iff _ _).mp h₁
    exact .four (by omega) (by omega) ((contains_continuation _).mpr (by omega)) h₂ h₃ (by omega)
      (by omega)
  split at hr
  · cases hr
    obtain _ | ⟨h₁, _ | ⟨h₂, _ | ⟨h₃, _ | _⟩⟩⟩ := ht
    exact .four (by omega) (by omega) h₁ h₂ h₃ (by omega) (by omega)
  split at hr
  · cases hr
    obtain _ | ⟨h₁, _ | ⟨h₂, _ | ⟨h₃, _ | _⟩⟩⟩ := ht
    have h₁ : 128 ≤ _ ∧ _ ≤ 143 := (ByteRange.contains_iff _ _).mp h₁
    exact .four (by omega) (by omega) ((contains_continuation _).mpr (by omega)) h₂ h₃ (by omega)
      (by omega)
  cases hr

/-- The first piece of the encoding of a text. -/
theorem firstPiece_of_follow (h : Follow b tail) (rest : List UInt8) :
    firstPiece b (tail ++ rest) = ⟨b :: tail, some (Char.ofNat (scalar b tail))⟩ := by
  obtain ⟨ranges, hr, ht⟩ := h.followers?
  simp only [firstPiece, hr, within_append ht, ht.length_eq, if_true]

/-- A first piece that is read begins with a well-formed sequence. -/
theorem follow_of_firstPiece (h : (firstPiece b bytes).char? = some c) :
    ∃ tail rest, bytes = tail ++ rest ∧ Follow b tail := by
  unfold firstPiece at h
  split at h
  · cases h
  · rename_i ranges hr
    dsimp only at h
    split at h
    · rename_i hlength
      obtain ⟨rest, hrest⟩ := within_prefix ranges bytes
      exact ⟨_, rest, hrest, follow_of_followers? hr (forall₂_within hlength)⟩
    · cases h

/-! ## Texts -/

theorem piecesFrom_eq (found : List Piece) (bytes : List UInt8) :
    piecesFrom found bytes = found.reverse ++ pieces bytes := by
  induction hn : bytes.length using Nat.strongRecOn generalizing found bytes with
  | ind n ih =>
    cases bytes with
    | nil => rw [pieces, piecesFrom, piecesFrom, List.reverse_nil, List.append_nil]
    | cons b bytes =>
      have hlt : (bytes.drop ((firstPiece b bytes).bytes.length - 1)).length < n := by
        rw [← hn, List.length_drop, List.length_cons]
        omega
      rw [pieces, piecesFrom, piecesFrom, ih _ hlt _ _ rfl, ih _ hlt [_] _ rfl,
        List.reverse_cons, List.reverse_singleton, List.append_assoc]

theorem pieces_cons (b : UInt8) (bytes : List UInt8) :
    pieces (b :: bytes) = firstPiece b bytes ::
      pieces (bytes.drop ((firstPiece b bytes).bytes.length - 1)) := by
  rw [pieces, piecesFrom, piecesFrom_eq]
  rfl

theorem decode?_nil : decode? [] = some [] := by
  rw [decode?, pieces, piecesFrom]
  rfl

/-- Bytes whose first piece is not read are no text. -/
theorem decode?_of_none (h : (firstPiece b bytes).char? = none) : decode? (b :: bytes) = none := by
  rw [decode?, pieces_cons, List.mapM_cons, h]
  rfl

/-- Reading takes a well-formed sequence as one character and goes on after it. -/
theorem decode?_append (h : Follow b tail) (rest : List UInt8) :
    decode? (b :: tail ++ rest) = (decode? rest).map (Char.ofNat (scalar b tail) :: ·) := by
  rw [decode?, List.cons_append, pieces_cons, firstPiece_of_follow h, List.mapM_cons,
    List.length_cons, Nat.add_sub_cancel, List.drop_left]
  show ((pieces rest).mapM Piece.char?).bind _ = _
  rw [decode?]
  cases (pieces rest).mapM Piece.char? <;> rfl

theorem decode?_encode (text : List Char) :
    decode? (text.flatMap String.utf8EncodeChar) = some text := by
  induction text with
  | nil => exact decode?_nil
  | cons c text ih =>
    obtain ⟨b, tail, h, hc, henc⟩ := exists_encoding c
    rw [List.flatMap_cons, henc, decode?_append h, ih, hc]
    rfl

theorem encode_of_decode? {text : List Char} (h : decode? bytes = some text) :
    bytes = text.flatMap String.utf8EncodeChar := by
  induction hn : bytes.length using Nat.strongRecOn generalizing bytes text with
  | ind n ih =>
    cases bytes with
    | nil =>
      rw [decode?_nil] at h
      cases h
      rfl
    | cons b bytes =>
      cases hc : (firstPiece b bytes).char? with
      | none =>
        rw [decode?_of_none hc] at h
        cases h
      | some c =>
        obtain ⟨tail, rest, rfl, hf⟩ := follow_of_firstPiece hc
        rw [← List.cons_append, decode?_append hf] at h
        obtain ⟨text, hrest, rfl⟩ := Option.map_eq_some_iff.mp h
        have hlt : rest.length < n := by
          rw [← hn, List.length_cons, List.length_append]
          omega
        rw [List.flatMap_cons, hf.encode, ← ih _ hlt hrest rfl, List.cons_append]

/-- The bytes of a text are its encoding. -/
theorem toList_toUTF8 (s : String) :
    s.toUTF8.data.toList = s.toList.flatMap String.utf8EncodeChar := by
  rw [String.toUTF8_eq_toByteArray, ← String.utf8Encode_toList, List.utf8Encode,
    List.data_toByteArray]

/-- **Texts.** Bytes are read as a text iff they are its encoding. -/
theorem decode?_eq_some_iff {text : List Char} :
    decode? bytes = some text ↔ bytes = text.flatMap String.utf8EncodeChar :=
  ⟨encode_of_decode?, fun h => h ▸ decode?_encode text⟩

end Interop.Utf8
