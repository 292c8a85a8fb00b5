import Interop.Proofs.Number.Rounding

/-!
# The number nearest to a decimal

* `Decimal.toBinary_eq`: a decimal becomes the number nearest to its value. The shortcuts for values
  far out of range change nothing.
* `Binary.withSign_toBinary`: a decimal in the rounding interval of a finite number reads as it.
  `Binary.ofInt_signed`: so does an integer.
-/

namespace Interop

/-! ## Powers of ten -/

theorem ten_zpow_pos (e : Int) : (0 : Rat) < 10 ^ e := by positivity

theorem ten_zpow_le {a b : Int} (h : a ≤ b) : (10 : Rat) ^ a ≤ 10 ^ b :=
  zpow_le_zpow_right₀ (by norm_num) h

/-- `8 ^ e ≤ 10 ^ e ≤ 16 ^ e`, the other way round below zero. -/
theorem ten_zpow_bounds (e : Int) :
    (2 : Rat) ^ (if e < 0 then 4 * e else 3 * e) ≤ 10 ^ e ∧
      (10 : Rat) ^ e ≤ 2 ^ (if e < 0 then 3 * e else 4 * e) := by
  have h8 : (2 : Rat) ^ (3 * e) = 8 ^ e := by
    rw [zpow_mul]
    norm_num
  have h16 : (2 : Rat) ^ (4 * e) = 16 ^ e := by
    rw [zpow_mul]
    norm_num
  split
  · rename_i hneg
    obtain ⟨n, rfl⟩ := Int.exists_eq_neg_ofNat hneg.le
    rw [h8, h16, zpow_neg, zpow_neg, zpow_neg, zpow_natCast, zpow_natCast, zpow_natCast]
    exact ⟨inv_anti₀ (by positivity) (pow_le_pow_left₀ (by norm_num) (by norm_num) n),
      inv_anti₀ (by positivity) (pow_le_pow_left₀ (by norm_num) (by norm_num) n)⟩
  · rename_i hpos
    obtain ⟨n, rfl⟩ := Int.eq_ofNat_of_zero_le (Int.not_lt.mp hpos)
    rw [h8, h16, zpow_natCast, zpow_natCast, zpow_natCast]
    exact ⟨pow_le_pow_left₀ (by norm_num) (by norm_num) n,
      pow_le_pow_left₀ (by norm_num) (by norm_num) n⟩

namespace Binary

variable {f : Format} {x y : Binary f} {v : Rat} {n : Nat}

theorem eq_of_fields (hn : x.negative = y.negative) (hm : x.magnitude = y.magnitude) : x = y := by
  cases x
  cases y
  cases hn
  cases hm
  rfl

theorem ofRat_of_nonneg (hv : 0 ≤ v) :
    (ofRat f v).negative = false ∧ (ofRat f v).magnitude = nearestMagnitude f v :=
  ⟨decide_eq_false hv.not_gt, congrArg (nearestMagnitude f) (Rat.abs_of_nonneg hv)⟩

end Binary

namespace Decimal

variable {f : Format} {d : Decimal}

theorem toRat_nonneg (d : Decimal) : 0 ≤ d.toRat :=
  mul_nonneg (Nat.cast_nonneg _) (ten_zpow_pos _).le

theorem coefficient_pos (h : 0 < d.toRat) : 0 < d.coefficient := by
  refine Nat.pos_of_ne_zero fun hzero => ?_
  rw [toRat, hzero, Nat.cast_zero, zero_mul] at h
  exact lt_irrefl _ h

theorem two_zpow_lowerLog2_le (hd : d.coefficient ≠ 0) : (2 : Rat) ^ d.lowerLog2 ≤ d.toRat := by
  have hlog := (two_pow_log2 (Nat.pos_of_ne_zero hd)).1
  rw [lowerLog2, two_zpow_add, toRat]
  exact mul_le_mul hlog (ten_zpow_bounds _).1 (two_zpow_pos _).le (Nat.cast_nonneg _)

theorem toRat_lt (hd : d.coefficient ≠ 0) : d.toRat < (2 : Rat) ^ d.upperLog2 := by
  have hlog := (two_pow_log2 (Nat.pos_of_ne_zero hd)).2
  rw [upperLog2, two_zpow_add, toRat]
  exact mul_lt_mul hlog (ten_zpow_bounds _).2 (ten_zpow_pos _) (two_zpow_pos _).le

/-- **Reading decimals.** A decimal becomes the number nearest to its value. -/
theorem toBinary_eq (f : Format) (d : Decimal) : d.toBinary f = .ofRat f d.toRat := by
  obtain ⟨hnegative, hmagnitude⟩ := Binary.ofRat_of_nonneg (f := f) d.toRat_nonneg
  unfold toBinary
  split
  · -- The value is zero, or below half of the least positive number.
    rename_i hsmall
    refine Binary.eq_of_fields hnegative.symm (Eq.trans ?_ hmagnitude.symm)
    refine ((Binary.nearestMagnitude_eq_zero_iff d.toRat_nonneg).mpr ?_).symm
    by_cases hd : d.coefficient = 0
    · rw [toRat, hd, Nat.cast_zero, zero_mul, mul_zero]
      exact (two_zpow_pos _).le
    · have hlog : d.upperLog2 < f.minExponent := by simpa [hd] using hsmall
      calc 2 * d.toRat ≤ 2 * 2 ^ d.upperLog2 := by linarith [toRat_lt hd]
        _ = 2 ^ (d.upperLog2 + 1) := by rw [two_zpow_add, zpow_one, mul_comm]
        _ ≤ 2 ^ f.minExponent := two_zpow_le hlog
  split
  · rename_i hlarge hbig
    refine Binary.eq_of_fields hnegative.symm (Eq.trans ?_ hmagnitude.symm)
    refine ((Binary.nearestMagnitude_eq_infinity_iff d.toRat_nonneg).mpr ?_).symm
    have hd : d.coefficient ≠ 0 := by
      simp only [Bool.or_eq_true, not_or, decide_eq_true_eq] at hlarge
      exact hlarge.1
    have hpower := (two_zpow_le hbig.le).trans (two_zpow_lowerLog2_le hd)
    linarith [Binary.greatest_lt f]
  · rfl

/-- The sign of a decimal is set beside its rounding. -/
theorem withSign_toBinary_fields (f : Format) (d : Decimal) (negative : Bool) :
    ((d.toBinary f).withSign negative).negative = negative ∧
      ((d.toBinary f).withSign negative).magnitude = Binary.nearestMagnitude f d.toRat := by
  obtain ⟨hnegative, hmagnitude⟩ := Binary.ofRat_of_nonneg (f := f) d.toRat_nonneg
  rw [toBinary_eq, Binary.withSign]
  cases negative with
  | true => exact ⟨by rw [if_pos rfl, Binary.neg, hnegative]; rfl, hmagnitude⟩
  | false => exact ⟨hnegative, hmagnitude⟩

end Decimal

namespace Binary

variable {f : Format} {x : Binary f} {v : Rat} {d : Decimal} {n : Nat}

theorem nearestMagnitude_of_rounding (hx : x.isFinite) (hv : 0 ≤ v) (h : x.rounding.contains v) :
    nearestMagnitude f v = x.magnitude :=
  nearestMagnitude_of_contains hv (by simpa [isFinite] using hx) h

/-- A decimal in the rounding interval of a finite number, with its sign, reads as it. -/
theorem withSign_toBinary (hx : x.isFinite) (h : x.rounding.contains d.toRat) :
    (d.toBinary f).withSign x.negative = x := by
  obtain ⟨hnegative, hmagnitude⟩ := Decimal.withSign_toBinary_fields f d x.negative
  rw [nearestMagnitude_of_rounding hx d.toRat_nonneg h] at hmagnitude
  exact eq_of_fields hnegative hmagnitude

/-- An integer in the rounding interval of a finite number, with its sign, rounds to it. -/
theorem ofInt_signed (hx : x.isFinite) (hn : 0 < n) (h : x.rounding.contains n) :
    ofInt f (signed x.negative n) = x := by
  have hn' : (0 : Rat) < n := Nat.cast_pos.mpr hn
  have hsign : decide (((signed x.negative n : Int) : Rat) < 0) = x.negative := by
    cases x.negative <;> simp [signed, hn]
  have habs : ((signed x.negative n : Int) : Rat).abs = n := by
    cases x.negative <;> simp [signed, Rat.abs_neg, Rat.abs_of_nonneg hn'.le]
  refine eq_of_fields hsign ?_
  show nearestMagnitude f ((signed x.negative n : Int) : Rat).abs = x.magnitude
  rw [habs, nearestMagnitude_of_rounding hx hn'.le h]

end Binary

end Interop
