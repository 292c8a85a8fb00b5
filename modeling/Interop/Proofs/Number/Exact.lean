import Interop.Proofs.Number.Nearest

/-!
# Numbers of two formats

A conversion between formats gives the number itself where the other format has it. The numbers of a
format are among those of a wider one, so widening is always exact.

* `Binary.Matches`: the same number in two formats.
* `Binary.Matches.convert_eq`: what a conversion gives if there is such a number.
* `Format.Within.matches_convert`: a wider format has every number.
* `Binary.same_convert_convert_iff`: which numbers survive the way to a narrower format and back.
* `Binary.TruncatesTo`: the integer part within 64 bits. `Binary.truncatesTo_toInt64`: it is what a
  number reads as.
-/

namespace Interop

/-- The numbers of `f` have fewer bits than those of `g`, and are within its range. -/
structure Format.Within (f g : Format) : Prop where
  fractionBits : f.fractionBits ≤ g.fractionBits
  minExponent : g.minExponent ≤ f.minExponent
  maxExponent : f.maxExponent ≤ g.maxExponent

theorem Format.single_within_double : single.Within double := ⟨by decide, by decide, by decide⟩

namespace Binary

variable {f g : Format} {x : Binary f} {y : Binary g} {v : Rat} {k m s : Nat}

/-! ## Classes of numbers -/

theorem isFinite_iff : x.isFinite ↔ x.magnitude < f.infinity := decide_eq_true_iff

theorem isInfinite_iff : x.isInfinite ↔ x.magnitude = f.infinity := beq_iff_eq

theorem isNaN_eq_false_iff : x.isNaN = false ↔ x.magnitude ≤ f.infinity := by
  rw [isNaN, decide_eq_false_iff_not, Nat.not_lt]

/-- A number is infinite, or finite and has a value. -/
theorem infinite_or_finite (hx : x.isNaN = false) :
    x.isInfinite ∨ x.isFinite := by
  rw [isInfinite_iff, isFinite_iff]
  exact (Nat.lt_or_eq_of_le (isNaN_eq_false_iff.mp hx)).symm

theorem value?_eq_some_iff :
    x.value? = some v ↔ x.isFinite ∧ v = if x.negative then -x.absValue else x.absValue := by
  unfold value?
  split
  · rename_i hx
    simp only [hx, Option.some.injEq, true_and, eq_comm]
  · rename_i hx
    simp [hx]

theorem absValue_nonneg (x : Binary f) : 0 ≤ x.absValue := magnitudeValue_nonneg f x.magnitude

/-- Numbers of one value and one sign have the same absolute value. -/
theorem absValue_eq (hx : x.value? = some v) (hy : y.value? = some v)
    (hs : x.negative = y.negative) : x.absValue = y.absValue := by
  have h := (value?_eq_some_iff.mp hx).2.symm.trans (value?_eq_some_iff.mp hy).2
  rw [hs] at h
  split at h
  · exact neg_injective h
  · exact h

theorem same_self (hx : x.isNaN = false) : x.same x := by
  simp [same, hx]

/-! ## The same number -/

/-- The same number in two formats. The signs of zeros are told apart, and a NaN is no number. -/
inductive Matches (x : Binary f) (y : Binary g) : Prop
  | infinite (hx : x.isInfinite) (hy : y.isInfinite) (hs : x.negative = y.negative) : Matches x y
  | finite {v : Rat} (hx : x.value? = some v) (hy : y.value? = some v)
      (hs : x.negative = y.negative) : Matches x y

theorem Matches.symm (h : x.Matches y) : y.Matches x := by
  cases h with
  | infinite hx hy hs => exact .infinite hy hx hs.symm
  | finite hx hy hs => exact .finite hy hx hs.symm

theorem Matches.isNaN_eq_false (h : x.Matches y) : x.isNaN = false := by
  rw [isNaN_eq_false_iff]
  cases h with
  | infinite hx _ _ => exact (isInfinite_iff.mp hx).le
  | finite hx _ _ => exact (isFinite_iff.mp (value?_eq_some_iff.mp hx).1).le

/-! ## Conversions -/

theorem nearestMagnitude_magnitudeValue (hm : m < f.infinity) :
    nearestMagnitude f (magnitudeValue f m) = m :=
  nearestMagnitude_of_contains (magnitudeValue_nonneg f m) hm (contains_self f m)

theorem convert_of_infinite (g : Format) (hx : x.isInfinite) :
    x.convert g = infinite g x.negative := by
  have hnan : x.isNaN = false := isNaN_eq_false_iff.mpr (isInfinite_iff.mp hx).le
  rw [convert, hnan, hx]
  rfl

theorem convert_of_finite (g : Format) (hx : x.isFinite) :
    x.convert g = { ofRat g x.absValue with negative := x.negative } := by
  have hlt := isFinite_iff.mp hx
  have hnan : x.isNaN = false := isNaN_eq_false_iff.mpr hlt.le
  have hinf : x.isInfinite = false := beq_eq_false_iff_ne.mpr hlt.ne
  rw [convert, hnan, hinf]
  rfl

theorem negative_convert (g : Format) (hx : x.isNaN = false) :
    (x.convert g).negative = x.negative := by
  rcases infinite_or_finite hx with hx | hx
  · rw [convert_of_infinite g hx, infinite]
  · rw [convert_of_finite g hx]

theorem isNaN_convert (g : Format) (hx : x.isNaN = false) : (x.convert g).isNaN = false := by
  rw [isNaN_eq_false_iff]
  rcases infinite_or_finite hx with hx | hx
  · rw [convert_of_infinite g hx, infinite]
  · rw [convert_of_finite g hx]
    exact nearestMagnitude_le g _

/-- **Exact conversions.** Where the other format has the number, a conversion gives it. -/
theorem Matches.convert_eq (h : x.Matches y) : x.convert g = y := by
  cases h with
  | infinite hx hy hs =>
    rw [convert_of_infinite g hx]
    exact eq_of_fields hs (isInfinite_iff.mp hy).symm
  | finite hx hy hs =>
    have hlt := isFinite_iff.mp (value?_eq_some_iff.mp hy).1
    rw [convert_of_finite g (value?_eq_some_iff.mp hx).1, absValue_eq hx hy hs]
    refine eq_of_fields hs ?_
    rw [(ofRat_of_nonneg y.absValue_nonneg).2]
    exact nearestMagnitude_magnitudeValue hlt

/-! ## Wider formats -/

/-- A significand is a number of the format at every exponent from the least one on. -/
theorem exists_magnitudeValue (k : Nat) (hs : s ≤ 2 * f.binade) :
    ∃ m, magnitudeValue f m = s * spacing f k := by
  -- a significand with fewer bits is twice as great at the exponent below
  induction k generalizing s with
  | zero => exact ⟨0 * f.binade + s, magnitudeValue_parts (.inl rfl) hs⟩
  | succ k ih =>
    by_cases hb : f.binade ≤ s
    · exact ⟨(k + 1) * f.binade + s, magnitudeValue_parts (.inr hb) hs⟩
    · obtain ⟨m, hm⟩ := ih (s := 2 * s) (by omega)
      refine ⟨m, ?_⟩
      rw [hm, spacing_succ]
      push_cast
      ring

end Binary

namespace Format

open Binary

variable {f g : Format} {m : Nat} {x : Binary f}

/-- A wider format has the value of every finite magnitude. -/
theorem Within.exists_magnitude (hw : f.Within g) (hm : m < f.infinity) :
    ∃ n < g.infinity, magnitudeValue g n = magnitudeValue f m := by
  obtain ⟨k, s, rfl, h, hs⟩ := exists_parts f m
  have hbinade : f.binade ≤ g.binade := by
    rw [binade, binade, Nat.one_shiftLeft, Nat.one_shiftLeft]
    exact Nat.pow_le_pow_right (by decide) hw.fractionBits
  have hspacing : spacing g ((f.minExponent - g.minExponent).toNat + k) = spacing f k := by
    rw [spacing, spacing]
    congr 1
    have := hw.minExponent
    omega
  obtain ⟨n, hn⟩ := exists_magnitudeValue (f := g) (s := s)
    ((f.minExponent - g.minExponent).toNat + k) (by omega)
  have hvalue : magnitudeValue g n = magnitudeValue f (k * f.binade + s) := by
    rw [hn, hspacing, magnitudeValue_parts h hs.le]
  refine ⟨n, (magnitudeValue_strictMono g).lt_iff_lt.mp ?_, hvalue⟩
  calc magnitudeValue g n
      = magnitudeValue f (k * f.binade + s) := hvalue
    _ < magnitudeValue f f.infinity := magnitudeValue_strictMono f hm
    _ = 2 ^ f.maxExponent := magnitudeValue_infinity f
    _ ≤ 2 ^ g.maxExponent := two_zpow_le hw.maxExponent
    _ = magnitudeValue g g.infinity := (magnitudeValue_infinity g).symm

theorem Within.exists_matches (hw : f.Within g) (hx : x.isNaN = false) :
    ∃ y : Binary g, x.Matches y := by
  rcases infinite_or_finite hx with hx | hx
  · exact ⟨infinite g x.negative, .infinite hx (isInfinite_iff.mpr rfl) rfl⟩
  · obtain ⟨n, hn, hvalue⟩ := hw.exists_magnitude (isFinite_iff.mp hx)
    let y : Binary g := ⟨x.negative, n, hn.trans g.infinity_lt⟩
    have hy : y.absValue = x.absValue := hvalue
    have hfin : y.isFinite := isFinite_iff.mpr hn
    exact ⟨y, .finite (value?_eq_some_iff.mpr ⟨hx, rfl⟩)
      (value?_eq_some_iff.mpr ⟨hfin, by rw [hy]⟩) rfl⟩

/-- **Widening.** A conversion to a wider format keeps the number. -/
theorem Within.matches_convert (hw : f.Within g) (hx : x.isNaN = false) :
    x.Matches (x.convert g) := by
  obtain ⟨y, hy⟩ := hw.exists_matches hx
  rw [hy.convert_eq]
  exact hy

end Format

namespace Binary

variable {f g : Format} {x : Binary f} {v : Rat}

/-- **Narrowing.** A number survives the way to a narrower format and back just if the narrower
format has it. -/
theorem same_convert_convert_iff (hw : g.Within f) :
    ((x.convert g).convert f).same x ↔ ∃ y : Binary g, y.Matches x := by
  constructor
  · intro h
    simp only [same, Bool.and_eq_true, Bool.not_eq_true', beq_iff_eq] at h
    obtain ⟨⟨⟨-, hx⟩, hmagnitude⟩, -⟩ := h
    have hy := isNaN_convert g hx
    have hback : (x.convert g).convert f = x :=
      eq_of_fields ((negative_convert f hy).trans (negative_convert g hx)) hmagnitude
    have hm := hw.matches_convert hy
    rw [hback] at hm
    exact ⟨_, hm⟩
  · rintro ⟨y, hy⟩
    rw [hy.symm.convert_eq, hy.convert_eq]
    exact same_self hy.symm.isNaN_eq_false

/-! ## Integer parts -/

/-- `i` is the integer part of a number, or the end of the range of 64 bits that is next to it. A
NaN has zero in its place. -/
inductive TruncatesTo (x : Binary f) : Int → Prop
  | nan (hx : x.isNaN) : TruncatesTo x 0
  | above (hx : x.isInfinite) (hs : x.negative = false) : TruncatesTo x (2 ^ 63 - 1)
  | below (hx : x.isInfinite) (hs : x.negative = true) : TruncatesTo x (-2 ^ 63)
  | finite {v : Rat} (hx : x.value? = some v) :
      TruncatesTo x (max (-2 ^ 63) (min (2 ^ 63 - 1) (if 0 ≤ v then v.floor else v.ceil)))

/-- The integer part of a value, from that of its absolute value. -/
theorem truncate_signed {a : Rat} (ha : 0 ≤ a) (negative : Bool) :
    (if 0 ≤ (if negative then -a else a) then (if negative then -a else a).floor
      else (if negative then -a else a).ceil) = if negative then -a.floor else a.floor := by
  cases negative with
  | false => rw [if_neg Bool.false_ne_true, if_pos ha, if_neg Bool.false_ne_true]
  | true =>
    rw [if_pos rfl, if_pos rfl, Rat.ceil_eq_neg_floor_neg, neg_neg]
    split
    · obtain rfl : a = 0 := by linarith
      rfl
    · rfl

theorem toInt_clamped (i : Int) :
    (Int64.ofInt (max Int64.minValue.toInt (min Int64.maxValue.toInt i))).toInt =
      max (-2 ^ 63) (min (2 ^ 63 - 1) i) := by
  rw [Int64.toInt_minValue, Int64.toInt_maxValue]
  exact Int64.toInt_ofInt_of_le (by omega) (by omega)

/-- **Integer parts.** A number reads as its integer part within 64 bits. -/
theorem truncatesTo_toInt64 (x : Binary f) : x.TruncatesTo x.toInt64.toInt := by
  unfold toInt64
  split
  · rename_i hx
    exact .nan hx
  rename_i hnan
  split
  · rename_i hx
    split
    · rename_i hs
      exact .below hx hs
    · rename_i hs
      exact .above hx (Bool.eq_false_iff.mpr hs)
  · rename_i hinf
    have hx : x.isFinite :=
      (infinite_or_finite (Bool.eq_false_iff.mpr hnan)).resolve_left hinf
    rw [toInt_clamped, ← truncate_signed x.absValue_nonneg]
    exact .finite (value?_eq_some_iff.mpr ⟨hx, rfl⟩)

/-- A number that is an integer of 64 bits reads as it. -/
theorem TruncatesTo.eq_of_value? {i k : Int} (h : x.TruncatesTo i) (hk : x.value? = some (k : Rat))
    (hlow : -2 ^ 63 ≤ k) (hhigh : k < 2 ^ 63) : i = k := by
  have hfin := isFinite_iff.mp (value?_eq_some_iff.mp hk).1
  cases h with
  | nan hx => exact absurd (isNaN_eq_false_iff.mpr hfin.le) (by simp [hx])
  | above hx _ => exact absurd (isInfinite_iff.mp hx) hfin.ne
  | below hx _ => exact absurd (isInfinite_iff.mp hx) hfin.ne
  | finite hx =>
    cases hx.symm.trans hk
    rw [Rat.floor_intCast, Rat.ceil_intCast, ite_self]
    omega

end Binary

end Interop
