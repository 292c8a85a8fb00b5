import Interop.Proofs.Number.Text

/-!
# Reading written numbers

* `Binary.denotes_text_small`, `Binary.denotes_text_large`: what the written form of a double
  denotes.
* `Number.ofBytes?_bytes`: the written form of a number reads as a number of the same value. It is
  the number itself, except that a double from `10 ^ 16` on reads as an integer where its digits
  fit 64 bits.
* `Number.WrittenLike`: the doubles with this exception.
-/

namespace Interop

namespace Binary

variable {x : Double}

/-- A double below `10 ^ 16` is what its written form denotes. -/
theorem denotes_text_small (hx : x.isFinite) (hsmall : x.absValue < plainFrom) :
    Number.Denotes x.text.toList (.float x) := by
  obtain ⟨d, hd, hpoint, hin⟩ := exists_text_small hx hsmall
  have hwhole : ¬ IsWhole x.negative x.body := fun hw => absurd (hw.1.2 '.' hpoint) (by decide)
  have h := Number.Denotes.real (isSign_minus x.negative) hd hwhole
  rwa [← toList_text hx, withSign_toBinary hx hin] at h

/-- The written form of a double from `10 ^ 16` on is that of an integer which rounds to it. It
denotes the integer as far as that has 64 bits, and else the double. -/
theorem denotes_text_large (hx : x.isFinite) (hlarge : plainFrom ≤ x.absValue) :
    ∃ k : Int, x.text = toString k ∧ ofInt .double k = x ∧ x.absValue ≤ 2 * k.natAbs ∧
      Number.Denotes x.text.toList
        (if Number.fitsInt64 k then .integer (.ofInt k) else .float x) := by
  obtain ⟨n, hn, hbody, hin⟩ := exists_text_large hlarge
  have htext := toList_text hx
  rw [hbody] at htext
  refine ⟨signed x.negative n, ?_, ofInt_signed hx hn hin, ?_, ?_⟩
  · rw [← String.toList_inj, htext, toList_toString_signed hn]
  · rw [natAbs_signed]
    exact le_two_mul_of_contains hin
  have hrun := isRun_toDigits n
  have hwhole : IsWhole x.negative (Nat.toDigits 10 n) ↔
      Number.fitsInt64 (signed x.negative n) := by
    rw [IsWhole, digitsValue_toDigits, fitsInt64_iff, and_iff_right hrun]
  rw [htext]
  by_cases hfits : Number.fitsInt64 (signed x.negative n)
  · rw [if_pos hfits]
    refine .whole (isSign_minus x.negative) (hwhole.mpr hfits) ?_
    rw [digitsValue_toDigits, toInt_ofInt_of_fits hfits]
  · rw [if_neg hfits]
    have h := Number.Denotes.real (isSign_minus x.negative) (IsDecimal.of_digits hrun)
      (mt hwhole.mp hfits)
    rwa [withSign_toBinary hx] at h
    rwa [Decimal.toRat_of_nonneg le_rfl, digitsValue_toDigits, Int.toNat_zero, Nat.pow_zero,
      Nat.mul_one]

end Binary

/-- The double `2 ^ 60`. -/
def twoPower60 : Double := .ofBits .double 0x43B0000000000000

namespace Number

variable {n : Number} {i : Int64}

/-- Every integer is finite. -/
def isFinite : Number → Bool
  | integer _ => true
  | float x => x.isFinite

/-- The written form in UTF-8. -/
def bytes (n : Number) : List UInt8 := n.text.toUTF8.data.toList

theorem bytes_eq (n : Number) : n.bytes = n.text.toList.flatMap String.utf8EncodeChar :=
  Utf8.toList_toUTF8 n.text

theorem ofBytes?_of_denotes {m : Number} (h : Denotes n.text.toList m) :
    ofBytes? n.bytes = some m :=
  ofBytes?_eq_some_iff.mpr ⟨[], n.text.toList, [], nofun, nofun,
    by rw [bytes_eq, List.nil_append, List.append_nil], h⟩

/-- An integer is read back from its written form. -/
theorem ofBytes?_integer (i : Int64) : ofBytes? (integer i).bytes = some (.integer i) := by
  have hi : signed (decide (i.toInt < 0)) (digitsValue (Nat.toDigits 10 i.toInt.natAbs)) =
      i.toInt := by rw [digitsValue_toDigits, signed_natAbs]
  apply ofBytes?_of_denotes
  rw [text, toList_toString]
  refine .whole (isSign_minus _) ⟨isRun_toDigits _, ?_⟩ hi.symm
  rw [hi]
  exact ⟨i.le_toInt, i.toInt_lt⟩

/-- **Round trip.** The written form of a number reads as a number of the same value. It is the
number itself, unless a double from `10 ^ 16` on is written with digits that fit 64 bits. -/
theorem ofBytes?_bytes :
    (∀ i : Int64, ofBytes? (integer i).bytes = some (.integer i)) ∧
    ∀ x : Double, x.isFinite → ∃ m : Number, ofBytes? (float x).bytes = some m ∧ m.toDouble = x ∧
      (x.absValue < plainFrom → m = .float x) ∧
      (plainFrom ≤ x.absValue → ∃ k : Int, x.text = toString k ∧
        m = if fitsInt64 k then .integer (.ofInt k) else .float x) := by
  refine ⟨ofBytes?_integer, fun x hx => ?_⟩
  rcases lt_or_ge x.absValue plainFrom with hsmall | hlarge
  · exact ⟨.float x, ofBytes?_of_denotes (Binary.denotes_text_small hx hsmall), rfl, fun _ => rfl,
      fun h => absurd hsmall h.not_gt⟩
  · obtain ⟨k, htext, hround, -, hd⟩ := Binary.denotes_text_large hx hlarge
    refine ⟨_, ofBytes?_of_denotes hd, ?_, fun h => absurd h hlarge.not_gt,
      fun _ => ⟨k, htext, rfl⟩⟩
    split
    · rename_i hfits
      rw [toDouble, toInt_ofInt_of_fits hfits, hround]
    · rfl

theorem ofBytes?_bytes_twoPower60 :
    twoPower60.isFinite = true ∧ plainFrom ≤ twoPower60.absValue ∧
      ofBytes? (float twoPower60).bytes = some (.integer 1152921504606847000) ∧
      (integer 1152921504606847000).toDouble = twoPower60 := by
  have hread : ofBytes? (float twoPower60).bytes = some (.integer 1152921504606847000) := by
    decide +kernel
  obtain ⟨m, hm, hvalue, -⟩ := ofBytes?_bytes.2 twoPower60 (by decide)
  rw [hread] at hm
  cases hm
  exact ⟨by decide, by decide +kernel, hread, hvalue⟩

/-! ## Doubles that are written like integers -/

/-- A double that is written like the integer `i`. -/
def WrittenLike (n : Number) (i : Int64) : Prop :=
  n.isInteger = false ∧ n.text = (integer i).text

/-- A finite number is read back from its written form, unless it is also that of an integer. -/
theorem ofBytes?_self (hn : n.isFinite) (h : ∀ i, ¬ n.WrittenLike i) :
    ofBytes? n.bytes = some n := by
  cases n with
  | integer i => exact ofBytes?_integer i
  | float x =>
    rcases lt_or_ge x.absValue plainFrom with hsmall | hlarge
    · exact ofBytes?_of_denotes (Binary.denotes_text_small hn hsmall)
    · obtain ⟨k, htext, -, -, hd⟩ := Binary.denotes_text_large hn hlarge
      by_cases hfits : fitsInt64 k
      · refine absurd ⟨rfl, ?_⟩ (h (.ofInt k))
        rw [text, text, htext, toInt_ofInt_of_fits hfits]
      · rw [if_neg hfits] at hd
        exact ofBytes?_of_denotes hd

theorem WrittenLike.ofBytes? (h : n.WrittenLike i) : ofBytes? n.bytes = some (.integer i) := by
  rw [bytes, h.2]
  exact ofBytes?_integer i

/-- A double that is written like an integer is at least `10 ^ 16`, and the double nearest to the
integer. -/
theorem WrittenLike.exists_double (hn : n.isFinite) (h : n.WrittenLike i) :
    ∃ x, n = .float x ∧ plainFrom ≤ x.absValue ∧ (integer i).toDouble = x ∧
      x.absValue ≤ 2 * i.toInt.natAbs := by
  cases n with
  | integer j => cases h.1
  | float x =>
    have hread := h.ofBytes?
    rcases lt_or_ge x.absValue plainFrom with hsmall | hlarge
    · rw [ofBytes?_of_denotes (n := float x) (Binary.denotes_text_small hn hsmall)] at hread
      cases hread
    · obtain ⟨k, -, hround, hsize, hd⟩ := Binary.denotes_text_large hn hlarge
      rw [ofBytes?_of_denotes (n := float x) hd] at hread
      by_cases hfits : fitsInt64 k
      · rw [if_pos hfits] at hread
        cases hread
        rw [← toInt_ofInt_of_fits hfits] at hround hsize
        exact ⟨x, rfl, hlarge, hround, hsize⟩
      · rw [if_neg hfits] at hread
        cases hread

end Number

end Interop
