import Interop.Proofs.Text.Utf8
import Mathlib.Data.String.Basic

/-!
# The order of texts

Texts are ordered by their code points. This is also the order of their bytes in UTF-8: longer
sequences have greater first bytes, and where first bytes agree the payload bits come in order.

* `Utf8.Follow.lt_append`: sequences of different characters are ordered as the characters are,
  whatever comes after them.
* `Utf8.lt_iff_utf8_lt`: a text comes before another one just if its bytes do.
-/

namespace Interop.Utf8

variable {b b' : UInt8} {tail tail' x y : List UInt8} {text other : List Char}

theorem cons_lt_cons (h : b.toNat < b'.toNat) (x y : List UInt8) : b :: x < b' :: y :=
  List.cons_lt_cons_iff.mpr (.inl (UInt8.lt_iff_toNat_lt.mpr h))

theorem cons_lt_cons_of_eq (h : b.toNat = b'.toNat) (hlt : x < y) : b :: x < b' :: y :=
  List.cons_lt_cons_iff.mpr (.inr ⟨UInt8.toNat_inj.mp h, hlt⟩)

theorem scalar_one (b : UInt8) : scalar b [] = b.toNat := rfl

/-- If the first item is not greater, and the rest is less where it is the same, the list is
less. -/
theorem cons_lt_cons_of_le (h : b.toNat ≤ b'.toNat) (hlt : b.toNat = b'.toNat → x < y) :
    b :: x < b' :: y := by
  rcases Nat.lt_or_eq_of_le h with h | h
  · exact cons_lt_cons h x y
  · exact cons_lt_cons_of_eq h (hlt h)

/-- **Sequences.** A well-formed sequence of a lower scalar value comes first. -/
theorem Follow.lt_append (h : Follow b tail) (h' : Follow b' tail')
    (hlt : scalar b tail < scalar b' tail') (x y : List UInt8) :
    b :: tail ++ x < b' :: tail' ++ y := by
  cases h <;> cases h'
  case one.one => exact cons_lt_cons hlt _ _
  case two.two =>
    simp only [contains_continuation, scalar_two] at *
    refine cons_lt_cons_of_le (by omega) fun _ => ?_
    exact cons_lt_cons (by omega) _ _
  case three.three =>
    simp only [contains_continuation, scalar_three] at *
    refine cons_lt_cons_of_le (by omega) fun _ => ?_
    refine cons_lt_cons_of_le (by omega) fun _ => ?_
    exact cons_lt_cons (by omega) _ _
  case four.four =>
    simp only [contains_continuation, scalar_four] at *
    refine cons_lt_cons_of_le (by omega) fun _ => ?_
    refine cons_lt_cons_of_le (by omega) fun _ => ?_
    refine cons_lt_cons_of_le (by omega) fun _ => ?_
    exact cons_lt_cons (by omega) _ _
  case one.two | one.three | one.four | two.three | two.four | three.four =>
    exact cons_lt_cons (by omega) _ _
  -- a longer sequence has a greater scalar value
  case two.one | three.one | three.two | four.one | four.two | four.three =>
    simp only [contains_continuation, scalar_one, scalar_two, scalar_three, scalar_four] at *
    omega

/-- The bytes of characters are ordered as the characters are. -/
theorem flatMap_lt (h : text < other) :
    text.flatMap String.utf8EncodeChar < other.flatMap String.utf8EncodeChar := by
  induction h with
  | nil =>
    rename_i c text
    obtain ⟨b, tail, -, -, henc⟩ := exists_encoding c
    rw [List.flatMap_cons, henc]
    exact List.nil_lt_cons _ _
  | cons _ ih =>
    rw [List.flatMap_cons, List.flatMap_cons]
    exact List.append_left_lt ih
  | @rel c text d other hlt =>
    obtain ⟨b, tail, hf, hc⟩ := exists_follow c
    obtain ⟨b', tail', hf', hd⟩ := exists_follow d
    have henc : String.utf8EncodeChar c = b :: tail := by rw [← hf.encode, hc, Char.ofNat_toNat]
    have henc' : String.utf8EncodeChar d = b' :: tail' := by
      rw [← hf'.encode, hd, Char.ofNat_toNat]
    have hv : scalar b tail < scalar b' tail' := by
      rw [hc, hd]
      exact hlt
    rw [List.flatMap_cons, List.flatMap_cons, henc, henc']
    exact hf.lt_append hf' hv _ _

/-- **Texts.** A text comes before another one just if its bytes do. -/
theorem lt_iff_utf8_lt {s t : String} :
    s < t ↔ s.toUTF8.data.toList < t.toUTF8.data.toList := by
  rw [toList_toUTF8, toList_toUTF8, String.lt_iff_toList_lt]
  refine ⟨flatMap_lt, fun h => ?_⟩
  rcases lt_trichotomy s t with hlt | rfl | hgt
  · exact hlt
  · exact absurd h (List.lt_irrefl _)
  · exact absurd h (List.lt_asymm (flatMap_lt hgt))

end Interop.Utf8
