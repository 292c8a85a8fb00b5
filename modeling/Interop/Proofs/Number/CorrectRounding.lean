import Interop.Proofs.Number.Exact
import Interop.Proofs.Number.Reading

/-!
# Correct rounding

A text that reads as a double reads as the one that is nearest to its exact value, however many
digits it has and whatever its exponent is.

* `Binary.IsNearest`: the number nearest to a value, stated without a rounding.
* `Binary.isNearest_iff`: the rounding gives that number, and it is the only one.
* `Number.ofBytes?_float_iff`: what reads as a double, and as which.
-/

namespace Interop

/-! ## Distances -/

section

variable {a b v : Rat} {even : Prop}

/-- The lesser of two values is as near just up to the middle. -/
theorem abs_sub_le_iff_of_lt (h : a < b) : |a - v| ≤ |b - v| ↔ 2 * v ≤ a + b := by
  have hfactor : (b - v) ^ 2 - (a - v) ^ 2 = (b - a) * (a + b - 2 * v) := by ring
  rw [← sq_le_sq, ← sub_nonneg, hfactor, mul_nonneg_iff_of_pos_left (sub_pos.mpr h), sub_nonneg]

/-- The greater of two values is as near just from the middle on. -/
theorem abs_sub_le_iff_of_gt (h : a < b) : |b - v| ≤ |a - v| ↔ a + b ≤ 2 * v := by
  have hfactor : (a - v) ^ 2 - (b - v) ^ 2 = (b - a) * (2 * v - (a + b)) := by ring
  rw [← sq_le_sq, ← sub_nonneg, hfactor, mul_nonneg_iff_of_pos_left (sub_pos.mpr h), sub_nonneg]

theorem below_middle (h : a < b) (hle : |a - v| ≤ |b - v|)
    (htie : |b - v| = |a - v| → even) : 2 * v ≤ a + b ∧ (2 * v = a + b → even) := by
  refine ⟨(abs_sub_le_iff_of_lt h).mp hle, fun heq => htie (le_antisymm ?_ hle)⟩
  exact (abs_sub_le_iff_of_gt h).mpr heq.ge

theorem above_middle (h : a < b) (hle : |b - v| ≤ |a - v|)
    (htie : |a - v| = |b - v| → even) : a + b ≤ 2 * v ∧ (2 * v = a + b → even) := by
  refine ⟨(abs_sub_le_iff_of_gt h).mp hle, fun heq => htie (le_antisymm ?_ hle)⟩
  exact (abs_sub_le_iff_of_lt h).mpr heq.le

end

namespace Binary

variable {f : Format} {x y : Binary f} {v : Rat} {m n : Nat} {negative : Bool}

/-! ## Rounding intervals -/

/-- No magnitude is nearer to a value than the one that it rounds to, and one that is as near
leaves it to the even one. -/
theorem closest_of_contains (h : (roundingOf f m).contains v) (n : Nat) :
    |magnitudeValue f m - v| ≤ |magnitudeValue f n - v| ∧
      (n ≠ m → |magnitudeValue f n - v| = |magnitudeValue f m - v| → m % 2 = 0) := by
  obtain ⟨⟨hlow, hhigh⟩, htie⟩ := contains_roundingOf.mp h
  have hmono := magnitudeValue_strictMono f
  rcases lt_trichotomy n m with hn | rfl | hn
  · have hpred : magnitudeValue f n ≤ magnitudeValue f (m - 1) :=
      hmono.monotone (Nat.le_sub_one_of_lt hn)
    refine ⟨(abs_sub_le_iff_of_gt (hmono hn)).mpr (by linarith), fun _ heq => htie (.inl ?_)⟩
    have hmiddle := (abs_sub_le_iff_of_lt (hmono hn)).mp heq.le
    linarith
  · exact ⟨le_rfl, fun hne => absurd rfl hne⟩
  · have hsucc : magnitudeValue f (m + 1) ≤ magnitudeValue f n := hmono.monotone hn
    refine ⟨(abs_sub_le_iff_of_lt (hmono hn)).mpr (by linarith), fun _ heq => htie (.inr ?_)⟩
    have hmiddle := (abs_sub_le_iff_of_gt (hmono hn)).mp heq.le
    linarith

/-! ## Nearest numbers -/

/-- The number of a sign that is nearest to an absolute value. A tie goes to the even magnitude. At
least half of the way from the greatest finite value to the next power of two lies infinity, and at
most half of the way to the least positive value lies zero. -/
structure IsNearest (x : Binary f) (negative : Bool) (v : Rat) : Prop where
  sign : x.negative = negative
  number : x.isNaN = false
  overflow : x = infinite f negative ↔ greatest f + 2 ^ f.maxExponent ≤ 2 * v
  underflow : x = zero f negative ↔ 2 * v ≤ 2 ^ f.minExponent
  closest : x.isFinite → ∀ y : Binary f, y.isFinite → |x.absValue - v| ≤ |y.absValue - v|
  tie : x.isFinite → ∀ y : Binary f, y.isFinite → y.absValue ≠ x.absValue →
    |y.absValue - v| = |x.absValue - v| → x.magnitude % 2 = 0

theorem absValue_inj : x.absValue = y.absValue ↔ x.magnitude = y.magnitude :=
  (magnitudeValue_strictMono f).injective.eq_iff

theorem IsNearest.closest_magnitude (h : x.IsNearest negative v) (hx : x.isFinite)
    (hn : n < f.infinity) (hne : n ≠ x.magnitude) :
    |magnitudeValue f x.magnitude - v| ≤ |magnitudeValue f n - v| ∧
      (|magnitudeValue f n - v| = |magnitudeValue f x.magnitude - v| → x.magnitude % 2 = 0) := by
  let y : Binary f := ⟨negative, n, hn.trans f.infinity_lt⟩
  have hy : y.isFinite := isFinite_iff.mpr hn
  exact ⟨h.closest hx y hy, h.tie hx y hy (mt absValue_inj.mp hne)⟩

/-- A finite number that is the nearest one has the value in its rounding interval. -/
theorem IsNearest.contains (h : x.IsNearest negative v) (hv : 0 ≤ v) (hx : x.isFinite) :
    (roundingOf f x.magnitude).contains v := by
  have hmono := magnitudeValue_strictMono f
  have hlt := isFinite_iff.mp hx
  have low : magnitudeValue f (x.magnitude - 1) + magnitudeValue f x.magnitude ≤ 2 * v ∧
      (2 * v = magnitudeValue f (x.magnitude - 1) + magnitudeValue f x.magnitude →
        x.magnitude % 2 = 0) := by
    rcases Nat.eq_zero_or_pos x.magnitude with hzero | hpos
    · rw [hzero, Nat.zero_sub, magnitudeValue_zero]
      exact ⟨by linarith, fun _ => rfl⟩
    · have hpred := Nat.sub_one_lt hpos.ne'
      obtain ⟨hle, htie⟩ := h.closest_magnitude hx (hpred.trans hlt) hpred.ne
      exact above_middle (hmono hpred) hle htie
  have high : 2 * v ≤ magnitudeValue f x.magnitude + magnitudeValue f (x.magnitude + 1) ∧
      (2 * v = magnitudeValue f x.magnitude + magnitudeValue f (x.magnitude + 1) →
        x.magnitude % 2 = 0) := by
    have hsucc := Nat.lt_add_one x.magnitude
    rcases Nat.lt_or_eq_of_le hlt with hnext | hlast
    · obtain ⟨hle, htie⟩ := h.closest_magnitude hx hnext hsucc.ne'
      exact below_middle (hmono hsucc) hle htie
    · -- Past the greatest finite number the end of the interval is the bound of infinity.
      have hnot : ¬ greatest f + 2 ^ f.maxExponent ≤ 2 * v := fun hover =>
        hlt.ne (congrArg magnitude (h.overflow.mpr hover))
      rw [greatest, ← magnitudeValue_infinity, ← hlast, Nat.succ_sub_one, not_le] at hnot
      exact ⟨hnot.le, fun heq => absurd heq hnot.ne⟩
  exact contains_roundingOf.mpr ⟨⟨low.1, high.1⟩, fun heq => heq.elim low.2 high.2⟩

/-- **Nearest numbers.** Rounding an absolute value and keeping the sign gives the nearest number,
and there is no other. -/
theorem isNearest_iff (hv : 0 ≤ v) :
    x.IsNearest negative v ↔ x.negative = negative ∧ x.magnitude = nearestMagnitude f v := by
  constructor
  · intro h
    refine ⟨h.sign, ?_⟩
    rcases infinite_or_finite h.number with hx | hx
    · have hinf : x = infinite f negative := eq_of_fields h.sign (isInfinite_iff.mp hx)
      rw [isInfinite_iff.mp hx, (nearestMagnitude_eq_infinity_iff hv).mpr (h.overflow.mp hinf)]
    · exact ((nearestMagnitude_eq_iff hv (isFinite_iff.mp hx)).mpr (h.contains hv hx)).symm
  · rintro ⟨hsign, hmagnitude⟩
    have near : x.isFinite → (roundingOf f x.magnitude).contains v := fun hx =>
      (nearestMagnitude_eq_iff hv (isFinite_iff.mp hx)).mp hmagnitude.symm
    have field : ∀ y : Binary f, y.negative = negative →
        (x = y ↔ nearestMagnitude f v = y.magnitude) := fun y hy => by
      rw [← hmagnitude]
      exact ⟨fun h => congrArg magnitude h, eq_of_fields (hsign.trans hy.symm)⟩
    exact {
      sign := hsign
      number := isNaN_eq_false_iff.mpr (hmagnitude ▸ nearestMagnitude_le f v)
      overflow := (field _ rfl).trans (nearestMagnitude_eq_infinity_iff hv)
      underflow := (field _ rfl).trans (nearestMagnitude_eq_zero_iff hv)
      closest := fun hx y _ => (closest_of_contains (near hx) y.magnitude).1
      tie := fun hx y _ hne =>
        (closest_of_contains (near hx) y.magnitude).2 (mt absValue_inj.mpr hne) }

end Binary

/-! ## Decimals -/

/-- **Decimals.** With the sign of its text, a decimal becomes the nearest number. -/
theorem Decimal.isNearest_iff {f : Format} {d : Decimal} {negative : Bool} {x : Binary f} :
    x.IsNearest negative d.toRat ↔ x = (d.toBinary f).withSign negative := by
  obtain ⟨hsign, hmagnitude⟩ := Decimal.withSign_toBinary_fields f d negative
  rw [Binary.isNearest_iff d.toRat_nonneg]
  constructor
  · rintro ⟨hs, hm⟩
    exact Binary.eq_of_fields (hs.trans hsign.symm) (hm.trans hmagnitude.symm)
  · rintro rfl
    exact ⟨hsign, hmagnitude⟩

/-- **Texts of doubles.** Bytes read as a double just if they encode, with blanks around it, a sign
and a decimal that is no integer of 64 bits. The double is the one nearest to the exact value of the
decimal, and it has the sign of the text. -/
theorem Number.ofBytes?_float_iff (bytes : List UInt8) (x : Double) :
    ofBytes? bytes = some (.float x) ↔
      ∃ before sign body after negative d, IsBlanks before ∧ IsBlanks after ∧
        bytes = (before ++ (sign ++ body) ++ after).flatMap String.utf8EncodeChar ∧
        IsSign sign negative ∧ IsDecimal body d ∧ ¬ IsWhole negative body ∧
        x.IsNearest negative d.toRat := by
  rw [ofBytes?_eq_some_iff]
  constructor
  · rintro ⟨before, numeral, after, hb, ha, hbytes, hn⟩
    cases hn with
    | @real sign body negative d hs hd hw =>
      exact ⟨before, sign, body, after, negative, d, hb, ha, hbytes, hs, hd, hw,
        Decimal.isNearest_iff.mpr rfl⟩
  · rintro ⟨before, sign, body, after, negative, d, hb, ha, hbytes, hs, hd, hw, hx⟩
    rw [Decimal.isNearest_iff.mp hx]
    exact ⟨before, sign ++ body, after, hb, ha, hbytes, .real hs hd hw⟩

/-- Half of the way between two doubles the even one is read. -/
example : Number.ofBytes? "9007199254740993.0".toUTF8.toList =
    some (.float (.ofBits .double 0x4340000000000000)) := by
  decide +kernel

end Interop
