import Interop.Number.Shortest
import Mathlib.Algebra.Order.Field.Rat
import Mathlib.Algebra.Order.Field.Power
import Mathlib.Data.Rat.Cast.Order
import Mathlib.Tactic.Linarith
import Mathlib.Tactic.Positivity
import Mathlib.Tactic.Ring

/-!
# Rounding to a binary format

The magnitude nearest to a rational is the one whose rounding interval the rational lies in.

* `Binary.magnitudeValue_strictMono`: magnitudes are in the order of their values.
* `Binary.roundingOf`: the interval of a magnitude, up to half of the way to its neighbours.
  `Binary.eq_of_contains`: no rational lies in two of them.
* `Binary.nearestMagnitude_eq_iff`: what rounds to a finite magnitude is what lies in its interval.
  `Binary.nearestMagnitude_eq_infinity_iff`: what rounds to infinity.
-/

namespace Interop

/-! ## Powers and logarithms of two -/

theorem two_zpow_pos (e : Int) : (0 : Rat) < 2 ^ e := by positivity

theorem two_zpow_add (a b : Int) : (2 : Rat) ^ (a + b) = 2 ^ a * 2 ^ b :=
  zpow_add₀ (by norm_num) a b

theorem two_zpow_le {a b : Int} (h : a ≤ b) : (2 : Rat) ^ a ≤ 2 ^ b :=
  zpow_le_zpow_right₀ (by norm_num) h

theorem two_pow_log2 {n : Nat} (hn : 0 < n) :
    (2 : Rat) ^ (Nat.log2 n : Int) ≤ n ∧ (n : Rat) < 2 ^ (Nat.log2 n + 1 : Int) := by
  have hlow : 2 ^ Nat.log2 n ≤ n := Nat.log2_self_le (Nat.ne_of_gt hn)
  have hhigh : n < 2 ^ (Nat.log2 n + 1) := Nat.lt_log2_self
  constructor
  · rw [zpow_natCast]
    exact_mod_cast hlow
  · have hcast : ((Nat.log2 n + 1 : Nat) : Int) = Nat.log2 n + 1 := by push_cast; rfl
    rw [← hcast, zpow_natCast]
    exact_mod_cast hhigh

/-- `2 ^ floorLog2 x ≤ x < 2 ^ (floorLog2 x + 1)`. -/
theorem floorLog2_spec {x : Rat} (hx : 0 < x) :
    (2 : Rat) ^ floorLog2 x ≤ x ∧ x < 2 ^ (floorLog2 x + 1) := by
  have hnum : 0 < x.num.natAbs := by
    have := Rat.num_pos.mpr hx
    omega
  obtain ⟨hn, hn'⟩ := two_pow_log2 hnum
  obtain ⟨hd, hd'⟩ := two_pow_log2 x.den_pos
  have hmul : x * x.den = x.num.natAbs := by
    have hcast : ((x.num.natAbs : Nat) : Rat) = (x.num : Rat) := by
      rw [Nat.cast_natAbs, abs_of_pos (Rat.num_pos.mpr hx)]
    rw [hcast]
    exact Rat.mul_den_eq_num x
  have hden : (0 : Rat) < x.den := by exact_mod_cast x.den_pos
  -- The quotient of the two logarithms is right, or one too great.
  have hhigh : x < 2 ^ ((Nat.log2 x.num.natAbs : Int) - Nat.log2 x.den + 1) := by
    have hsplit : (Nat.log2 x.num.natAbs : Int) + 1 =
        (Nat.log2 x.num.natAbs - Nat.log2 x.den + 1) + Nat.log2 x.den := by ring
    rw [hsplit, two_zpow_add, ← hmul] at hn'
    have hle := mul_le_mul_of_nonneg_left hd hx.le
    have hpos := two_zpow_pos (Nat.log2 x.den)
    exact lt_of_mul_lt_mul_right (hle.trans_lt hn') hpos.le
  have hlow : (2 : Rat) ^ ((Nat.log2 x.num.natAbs : Int) - Nat.log2 x.den - 1) ≤ x := by
    have hsplit : (Nat.log2 x.num.natAbs : Int) =
        (Nat.log2 x.num.natAbs - Nat.log2 x.den - 1) + (Nat.log2 x.den + 1) := by ring
    rw [hsplit, two_zpow_add, ← hmul] at hn
    have hle := mul_le_mul_of_nonneg_left hd'.le hx.le
    exact le_of_mul_le_mul_right (hn.trans hle) (two_zpow_pos _)
  unfold floorLog2
  dsimp only
  split
  · rename_i hguess
    exact ⟨hguess, hhigh⟩
  · rename_i hguess
    rw [sub_add_cancel]
    exact ⟨hlow, not_le.mp hguess⟩

/-! ## Rounding to integers -/

/-- The nearest integer is at most one half away, and even if it is just that. -/
theorem roundHalfEven_spec (x : Rat) :
    2 * (roundHalfEven x : Rat) - 1 ≤ 2 * x ∧ 2 * x ≤ 2 * (roundHalfEven x : Rat) + 1 ∧
      (2 * x = 2 * (roundHalfEven x : Rat) - 1 ∨ 2 * x = 2 * (roundHalfEven x : Rat) + 1 →
        roundHalfEven x % 2 = 0) := by
  have hlow := Rat.floor_le x
  have hhigh := Rat.lt_floor_add_one x
  push_cast at hhigh
  unfold roundHalfEven
  dsimp only
  split
  · rename_i hbelow
    refine ⟨by linarith, by linarith, ?_⟩
    rintro (h | h) <;> exfalso <;> linarith
  split
  · rename_i hbelow habove
    push_cast
    refine ⟨by linarith, by linarith, ?_⟩
    rintro (h | h) <;> exfalso <;> linarith
  · -- A tie: the floor itself if it is even, and else the next integer.
    rename_i hbelow habove
    have htie : 2 * x = 2 * (x.floor : Rat) + 1 := by linarith
    rcases Int.emod_two_eq_zero_or_one x.floor with hmod | hmod
    · rw [hmod, add_zero]
      exact ⟨by linarith, by linarith, fun _ => hmod⟩
    · rw [hmod]
      push_cast
      refine ⟨by linarith, by linarith, fun _ => ?_⟩
      omega

namespace Format

theorem cast_binade (f : Format) : (f.binade : Rat) = 2 ^ (f.fractionBits : Int) := by
  rw [binade, Nat.one_shiftLeft, zpow_natCast]
  push_cast
  rfl

theorem binade_even (f : Format) : f.binade % 2 = 0 := by
  have hsplit : f.fractionBits = f.fractionBits - 1 + 1 :=
    (Nat.sub_add_cancel f.fractionBits_pos).symm
  rw [binade, Nat.one_shiftLeft, hsplit, Nat.pow_succ, Nat.mul_mod_left]

theorem infinity_pos (f : Format) : 0 < f.infinity := by
  have hexp : 2 ≤ 2 ^ f.exponentBits := Nat.pow_le_pow_right (n := 2) (by decide) f.exponentBits_pos
  rw [infinity, Nat.one_shiftLeft]
  exact Nat.mul_pos (by omega) f.binade_pos

theorem infinity_even (f : Format) : f.infinity % 2 = 0 := by
  rw [infinity, Nat.mul_mod, f.binade_even, Nat.mul_zero]

end Format

namespace Binary

variable {f : Format} {m n k s : Nat} {x : Rat}

/-! ## Values of magnitudes -/

private theorem magnitudeValue_mul_add {q r : Nat} (hr : r < f.binade) :
    magnitudeValue f (q * f.binade + r) =
      if q = 0 then (r : Rat) * 2 ^ f.minExponent
      else ((f.binade + r : Nat) : Rat) * 2 ^ (f.minExponent + (q - 1 : Int)) := by
  have hdiv : (q * f.binade + r) / f.binade = q := by
    rw [Nat.add_comm, Nat.add_mul_div_right _ _ f.binade_pos, Nat.div_eq_of_lt hr, Nat.zero_add]
  have hmod : (q * f.binade + r) % f.binade = r := by
    rw [Nat.add_comm, Nat.add_mul_mod_self_right, Nat.mod_eq_of_lt hr]
  rw [magnitudeValue, hdiv, hmod]

/-- A magnitude is a significand and the count of the binades below it. -/
theorem exists_parts (f : Format) (m : Nat) :
    ∃ k s, m = k * f.binade + s ∧ (k = 0 ∨ f.binade ≤ s) ∧ s < 2 * f.binade := by
  have hr := Nat.mod_lt m f.binade_pos
  have hm := Nat.div_add_mod m f.binade
  rw [Nat.mul_comm] at hm
  cases hq : m / f.binade with
  | zero =>
    rw [hq] at hm
    exact ⟨0, m % f.binade, hm.symm, .inl rfl, by omega⟩
  | succ q =>
    rw [hq, Nat.succ_mul] at hm
    exact ⟨q, f.binade + m % f.binade, by omega, .inr (by omega), by omega⟩

/-- The distance of neighbouring magnitudes past `k` binades. -/
def spacing (f : Format) (k : Nat) : Rat := 2 ^ (f.minExponent + k)

theorem spacing_pos (f : Format) (k : Nat) : 0 < spacing f k := two_zpow_pos _

theorem spacing_succ (f : Format) (k : Nat) : spacing f (k + 1) = 2 * spacing f k := by
  rw [spacing, spacing, Nat.cast_succ, ← add_assoc, two_zpow_add (f.minExponent + k) 1, zpow_one,
    mul_comm]

theorem magnitudeValue_parts (h : k = 0 ∨ f.binade ≤ s) (hs : s ≤ 2 * f.binade) :
    magnitudeValue f (k * f.binade + s) = s * spacing f k := by
  by_cases small : s < f.binade
  · obtain rfl : k = 0 := by omega
    rw [magnitudeValue_mul_add small, if_pos rfl, spacing, Nat.cast_zero, add_zero]
  by_cases top : s = 2 * f.binade
  · have hsplit : k * f.binade + s = (k + 2) * f.binade + 0 := by rw [top]; ring
    have hexp : f.minExponent + ((k + 2 : Nat) - 1 : Int) = f.minExponent + (k + 1 : Nat) := by
      push_cast
      ring
    rw [hsplit, magnitudeValue_mul_add f.binade_pos, if_neg (by omega), hexp, ← spacing,
      spacing_succ, top]
    push_cast
    ring
  · obtain ⟨r, rfl⟩ := Nat.exists_eq_add_of_le (Nat.not_lt.mp small)
    have hsplit : k * f.binade + (f.binade + r) = (k + 1) * f.binade + r := by ring
    have hexp : f.minExponent + ((k + 1 : Nat) - 1 : Int) = f.minExponent + k := by
      push_cast
      ring
    rw [hsplit, magnitudeValue_mul_add (by omega), if_neg (by omega), hexp, spacing]

theorem magnitudeValue_succ (h : k = 0 ∨ f.binade ≤ s) (hs : s < 2 * f.binade) :
    magnitudeValue f (k * f.binade + s + 1) = (s + 1) * spacing f k := by
  rw [Nat.add_assoc, magnitudeValue_parts (by omega) hs, Nat.cast_succ]

/-- Below a power of two the magnitudes stand half as far apart. -/
theorem magnitudeValue_pred (h : k = 0 ∨ f.binade ≤ s) (hs : s ≤ 2 * f.binade)
    (hpos : 0 < k * f.binade + s) :
    magnitudeValue f (k * f.binade + s - 1) = (s - 1) * spacing f k ∨
      k ≠ 0 ∧ s = f.binade ∧
        magnitudeValue f (k * f.binade + s - 1) = (s - 1 / 2) * spacing f k := by
  have hb := f.binade_pos
  by_cases first : k ≠ 0 ∧ s = f.binade
  · right
    obtain ⟨hk, rfl⟩ := first
    obtain ⟨k, rfl⟩ := Nat.exists_eq_succ_of_ne_zero hk
    have hsplit : (k + 1) * f.binade + f.binade - 1 = k * f.binade + (2 * f.binade - 1) := by
      rw [Nat.succ_mul]
      omega
    refine ⟨hk, rfl, ?_⟩
    rw [hsplit, magnitudeValue_parts (by omega) (by omega), spacing_succ, Nat.cast_sub (by omega)]
    push_cast
    ring
  · left
    have hs0 : 0 < s := by
      rcases h with rfl | h
      · omega
      · omega
    rw [Nat.add_sub_assoc hs0, magnitudeValue_parts (by omega) (by omega), Nat.cast_sub hs0,
      Nat.cast_one]

theorem magnitudeValue_lt_succ (f : Format) (m : Nat) :
    magnitudeValue f m < magnitudeValue f (m + 1) := by
  obtain ⟨k, s, rfl, h, hs⟩ := exists_parts f m
  rw [magnitudeValue_parts h hs.le, magnitudeValue_succ h hs]
  exact mul_lt_mul_of_pos_right (lt_add_one _) (spacing_pos f k)

theorem magnitudeValue_strictMono (f : Format) : StrictMono (magnitudeValue f) :=
  strictMono_nat_of_lt_succ (magnitudeValue_lt_succ f)

theorem magnitudeValue_zero (f : Format) : magnitudeValue f 0 = 0 := by
  have h := magnitudeValue_parts (f := f) (k := 0) (s := 0) (.inl rfl) (by omega)
  simpa using h

theorem magnitudeValue_one (f : Format) : magnitudeValue f 1 = 2 ^ f.minExponent := by
  have hb := f.binade_pos
  have h := magnitudeValue_succ (f := f) (k := 0) (s := 0) (.inl rfl) (by omega)
  simpa [spacing] using h

theorem magnitudeValue_infinity (f : Format) :
    magnitudeValue f f.infinity = 2 ^ f.maxExponent := by
  have hdouble : 2 ^ f.exponentBits = 2 * 2 ^ (f.exponentBits - 1) := by
    rw [← Nat.pow_succ', Nat.succ_eq_add_one, Nat.sub_add_cancel f.exponentBits_pos]
  have hhalf := Nat.two_pow_pos (f.exponentBits - 1)
  have hsplit : f.infinity = (2 ^ f.exponentBits - 2) * f.binade + f.binade := by
    rw [Format.infinity, Nat.one_shiftLeft, ← Nat.succ_mul]
    congr 1
    omega
  have hmax : f.maxExponent = (2 ^ (f.exponentBits - 1) : Nat) := by
    rw [Format.maxExponent, Nat.one_shiftLeft]
  rw [hsplit, magnitudeValue_parts (.inr le_rfl) (by omega), f.cast_binade, spacing,
    ← two_zpow_add]
  congr 1
  rw [Format.minExponent]
  omega

theorem magnitudeValue_nonneg (f : Format) (m : Nat) : 0 ≤ magnitudeValue f m := by
  rw [← magnitudeValue_zero f]
  exact (magnitudeValue_strictMono f).monotone (Nat.zero_le m)

theorem magnitudeValue_pos (hm : m ≠ 0) : 0 < magnitudeValue f m := by
  rw [← magnitudeValue_zero f]
  exact magnitudeValue_strictMono f (Nat.pos_of_ne_zero hm)

/-! ## Rounding intervals -/

/-- The rationals that round to a magnitude: up to half of the way to its neighbours. -/
def roundingOf (f : Format) (m : Nat) : Interval where
  low := (magnitudeValue f (m - 1) + magnitudeValue f m) / 2
  high := (magnitudeValue f m + magnitudeValue f (m + 1)) / 2
  closed := m % 2 = 0

theorem contains_roundingOf : (roundingOf f m).contains x ↔
    (magnitudeValue f (m - 1) + magnitudeValue f m ≤ 2 * x ∧
      2 * x ≤ magnitudeValue f m + magnitudeValue f (m + 1)) ∧
    (2 * x = magnitudeValue f (m - 1) + magnitudeValue f m ∨
      2 * x = magnitudeValue f m + magnitudeValue f (m + 1) → m % 2 = 0) := by
  have hlow : ∀ a : Rat, a / 2 ≤ x ↔ a ≤ 2 * x := fun a => by
    constructor <;> intro h <;> linarith
  have hhigh : ∀ a : Rat, x ≤ a / 2 ↔ 2 * x ≤ a := fun a => by
    constructor <;> intro h <;> linarith
  have hlow' : ∀ a : Rat, a / 2 < x ↔ a < 2 * x := fun a => by
    constructor <;> intro h <;> linarith
  have hhigh' : ∀ a : Rat, x < a / 2 ↔ 2 * x < a := fun a => by
    constructor <;> intro h <;> linarith
  by_cases even : m % 2 = 0
  · simp only [Interval.contains, roundingOf, even, decide_true, if_true, Bool.and_eq_true,
      decide_eq_true_eq, hlow, hhigh, implies_true, and_true]
  · simp only [Interval.contains, roundingOf, even, decide_false, Bool.false_eq_true, if_false,
      Bool.and_eq_true, decide_eq_true_eq, hlow', hhigh', imp_false, not_or]
    constructor
    · exact fun h => ⟨⟨h.1.le, h.2.le⟩, h.1.ne', h.2.ne⟩
    · exact fun h => ⟨lt_of_le_of_ne h.1.1 (Ne.symm h.2.1), lt_of_le_of_ne h.1.2 h.2.2⟩

/-- The value of a magnitude rounds to it. -/
theorem contains_self (f : Format) (m : Nat) :
    (roundingOf f m).contains (magnitudeValue f m) := by
  have hnext := magnitudeValue_lt_succ f m
  rw [contains_roundingOf]
  cases m with
  | zero =>
    rw [Nat.zero_sub]
    rw [magnitudeValue_zero] at hnext ⊢
    exact ⟨⟨by linarith, by linarith⟩, fun _ => rfl⟩
  | succ m =>
    have hprev := magnitudeValue_lt_succ f m
    rw [Nat.add_sub_cancel]
    refine ⟨⟨by linarith, by linarith⟩, ?_⟩
    rintro (h | h) <;> exfalso <;> linarith

/-- A magnitude is at most twice as great as what rounds to it. -/
theorem le_two_mul_of_contains (h : (roundingOf f m).contains x) : magnitudeValue f m ≤ 2 * x := by
  have hlow := (contains_roundingOf.mp h).1.1
  have := magnitudeValue_nonneg f (m - 1)
  linarith

theorem pos_of_contains (hm : m ≠ 0) (h : (roundingOf f m).contains x) : 0 < x := by
  linarith [le_two_mul_of_contains h, magnitudeValue_pos (f := f) hm]

/-- No rational rounds to two magnitudes. -/
theorem eq_of_contains (hm : (roundingOf f m).contains x) (hn : (roundingOf f n).contains x) :
    m = n := by
  wlog hle : m ≤ n generalizing m n
  · exact (this hn hm (Nat.le_of_not_le hle)).symm
  rw [contains_roundingOf] at hm hn
  obtain ⟨⟨-, hhigh⟩, hm⟩ := hm
  obtain ⟨⟨hlow, -⟩, hn⟩ := hn
  by_contra hne
  -- The end of the lower interval is at most the beginning of the other one, so both are `x`.
  have hlt : m < n := Nat.lt_of_le_of_ne hle hne
  have hmono := (magnitudeValue_strictMono f).monotone
  have h₁ := hmono (show m ≤ n - 1 by omega)
  have h₂ := hmono (show m + 1 ≤ n by omega)
  have heven := hm (.inr (by linarith))
  have heven' := hn (.inl (by linarith))
  have hadj : m + 1 = n := (magnitudeValue_strictMono f).injective (by linarith)
  omega

/-! ## The nearest magnitude -/

/-- The exponent at which `x` has its significand. -/
def unitExponent (f : Format) (x : Rat) : Int :=
  max f.minExponent (floorLog2 x - f.fractionBits)

/-- The nearest magnitude, as if the finite ones went on without an end. -/
def unboundedMagnitude (f : Format) (x : Rat) : Nat :=
  (unitExponent f x - f.minExponent).toNat * f.binade +
    (roundHalfEven (x * (2 : Rat) ^ (-unitExponent f x))).toNat

theorem nearestMagnitude_eq (hx : x ≠ 0) :
    nearestMagnitude f x = min f.infinity (unboundedMagnitude f x) := by
  rw [nearestMagnitude, if_neg hx]
  rfl

/-- At its exponent, `x` has all bits of a significand, or fewer if the exponent is the least. -/
theorem significand_bounds (f : Format) (hx : 0 < x) :
    (unitExponent f x = f.minExponent ∨ (f.binade : Rat) ≤ x * 2 ^ (-unitExponent f x)) ∧
      x * 2 ^ (-unitExponent f x) < 2 * f.binade := by
  obtain ⟨hlow, hhigh⟩ := floorLog2_spec hx
  have hpos := two_zpow_pos (-unitExponent f x)
  constructor
  · rcases max_choice f.minExponent (floorLog2 x - f.fractionBits) with h | h
    · exact .inl h
    · have hexp : (f.fractionBits : Int) = floorLog2 x + -unitExponent f x := by
        rw [unitExponent, h]
        ring
      rw [f.cast_binade, hexp, two_zpow_add]
      exact .inr (mul_le_mul_of_nonneg_right hlow hpos.le)
  · calc x * 2 ^ (-unitExponent f x)
        < 2 ^ (floorLog2 x + 1) * 2 ^ (-unitExponent f x) := mul_lt_mul_of_pos_right hhigh hpos
      _ = 2 ^ (floorLog2 x + 1 + -unitExponent f x) := (two_zpow_add _ _).symm
      _ ≤ 2 ^ (1 + f.fractionBits : Int) := two_zpow_le (by unfold unitExponent; omega)
      _ = 2 * f.binade := by rw [two_zpow_add, f.cast_binade, zpow_one]

/-- Twice the lower end of the interval of a significand is half a unit below it, or out of the
reach of a `t` that has all bits of a significand. -/
private theorem lower_end {t : Rat} (ht : 0 < t) (hk : k = 0 ∨ (f.binade : Rat) ≤ t)
    (hks : k = 0 ∨ f.binade ≤ s) (hs : s ≤ 2 * f.binade) :
    ∃ a : Rat, magnitudeValue f (k * f.binade + s - 1) + magnitudeValue f (k * f.binade + s) =
      a * spacing f k ∧ (a = 2 * s - 1 ∨ a < 2 * t) := by
  have hval := magnitudeValue_parts hks hs
  rcases Nat.eq_zero_or_pos (k * f.binade + s) with hzero | hpos
  · refine ⟨0, ?_, .inr (by linarith)⟩
    rw [hzero, magnitudeValue_zero, add_zero, zero_mul]
  rcases magnitudeValue_pred hks hs hpos with hpred | ⟨hk0, rfl, hpred⟩
  · exact ⟨2 * s - 1, by rw [hpred, hval]; ring, .inl rfl⟩
  · have := hk.resolve_left hk0
    exact ⟨2 * f.binade - 1 / 2, by rw [hpred, hval]; ring, .inr (by linarith)⟩

/-- Twice the upper end is half a unit above the significand, or out of the reach of a `t` that has
no more bits than a significand. -/
private theorem upper_end {t : Rat} (htop : t < 2 * f.binade) (hks : k = 0 ∨ f.binade ≤ s)
    (hs : s ≤ 2 * f.binade) :
    ∃ a : Rat, magnitudeValue f (k * f.binade + s) + magnitudeValue f (k * f.binade + s + 1) =
      a * spacing f k ∧ (a = 2 * s + 1 ∨ 2 * t < a) := by
  have hunit := spacing_pos f k
  have hval := magnitudeValue_parts hks hs
  rcases hs.lt_or_eq with hlt | rfl
  · exact ⟨2 * s + 1, by rw [magnitudeValue_succ hks hlt, hval]; ring, .inl rfl⟩
  · have hnext := magnitudeValue_lt_succ f (k * f.binade + 2 * f.binade)
    refine ⟨_, (div_mul_cancel₀ _ hunit.ne').symm, .inr ?_⟩
    rw [lt_div_iff₀ hunit]
    have := mul_lt_mul_of_pos_right htop hunit
    push_cast at hval
    linarith

/-- The significand nearest to `t`, with the binades below it, is the magnitude that `t` units
round to. -/
private theorem contains_of_significand {t : Rat} (ht : 0 < t)
    (hk : k = 0 ∨ (f.binade : Rat) ≤ t) (htop : t < 2 * f.binade)
    (hlow : 2 * (s : Rat) - 1 ≤ 2 * t) (hhigh : 2 * t ≤ 2 * s + 1)
    (htie : 2 * t = 2 * (s : Rat) - 1 ∨ 2 * t = 2 * s + 1 → s % 2 = 0) :
    (roundingOf f (k * f.binade + s)).contains (t * spacing f k) := by
  have hunit := spacing_pos f k
  have hs : s ≤ 2 * f.binade := by
    have : (2 * s : Rat) < 2 * (2 * f.binade) + 1 := by linarith
    norm_cast at this
    omega
  have hks : k = 0 ∨ f.binade ≤ s := hk.imp_right fun h => by
    have : (2 * f.binade : Rat) ≤ 2 * s + 1 := by linarith
    norm_cast at this
    omega
  have heven : s % 2 = 0 → (k * f.binade + s) % 2 = 0 := fun h => by
    rw [Nat.add_mod, Nat.mul_mod, f.binade_even, h, Nat.mul_zero]
  obtain ⟨a, ha, ha'⟩ := lower_end ht hk hks hs
  obtain ⟨b, hb, hb'⟩ := upper_end htop hks hs
  rw [contains_roundingOf, ha, hb, ← mul_assoc, mul_le_mul_iff_left₀ hunit,
    mul_le_mul_iff_left₀ hunit, mul_left_inj' hunit.ne', mul_left_inj' hunit.ne']
  refine ⟨⟨?_, ?_⟩, fun h => heven (htie ?_)⟩
  · rcases ha' with rfl | h <;> linarith
  · rcases hb' with rfl | h <;> linarith
  · rcases h with rfl | rfl
    · exact .inl (ha'.resolve_right (lt_irrefl _))
    · exact .inr (hb'.resolve_right (lt_irrefl _))

theorem contains_unboundedMagnitude (hx : 0 < x) :
    (roundingOf f (unboundedMagnitude f x)).contains x := by
  obtain ⟨hk, htop⟩ := significand_bounds f hx
  obtain ⟨hlow, hhigh, htie⟩ := roundHalfEven_spec (x * 2 ^ (-unitExponent f x))
  obtain ⟨k, hexp⟩ := Int.le.dest (le_max_left f.minExponent (floorLog2 x - f.fractionBits))
  change _ = unitExponent f x at hexp
  have ht := mul_pos hx (two_zpow_pos (-unitExponent f x))
  have hx' : x = x * 2 ^ (-unitExponent f x) * spacing f k := by
    rw [spacing, hexp, mul_assoc, ← two_zpow_add, neg_add_cancel, zpow_zero, mul_one]
  have hround : 0 ≤ roundHalfEven (x * 2 ^ (-unitExponent f x)) := by
    have : (-1 : Rat) < 2 * roundHalfEven (x * 2 ^ (-unitExponent f x)) + 1 := by linarith
    norm_cast at this
    omega
  obtain ⟨s, hs⟩ := Int.eq_ofNat_of_zero_le hround
  rw [hs] at hlow hhigh htie
  rw [unboundedMagnitude, hs, Int.toNat_natCast, ← hexp, add_sub_cancel_left, Int.toNat_natCast]
  rw [← hexp] at ht hk htop hlow hhigh htie hx'
  have h := contains_of_significand (k := k) (s := s) ht (hk.imp_left fun h => by omega) htop
    hlow hhigh fun h => by exact_mod_cast htie h
  rwa [← hx'] at h

/-- What lies in the interval of a finite magnitude rounds to it. -/
theorem nearestMagnitude_of_contains (hx : 0 ≤ x) (hm : m < f.infinity)
    (h : (roundingOf f m).contains x) : nearestMagnitude f x = m := by
  rcases hx.eq_or_lt with rfl | hpos
  · rw [nearestMagnitude, if_pos rfl]
    have hzero := contains_self f 0
    rw [magnitudeValue_zero] at hzero
    exact eq_of_contains hzero h
  · rw [nearestMagnitude_eq hpos.ne', eq_of_contains (contains_unboundedMagnitude hpos) h,
      Nat.min_eq_right hm.le]

theorem nearestMagnitude_eq_iff (hx : 0 ≤ x) (hm : m < f.infinity) :
    nearestMagnitude f x = m ↔ (roundingOf f m).contains x := by
  refine ⟨?_, nearestMagnitude_of_contains hx hm⟩
  rintro rfl
  rcases hx.eq_or_lt with rfl | hpos
  · have hzero := contains_self f 0
    rwa [magnitudeValue_zero] at hzero
  · rw [nearestMagnitude_eq hpos.ne'] at hm ⊢
    rw [min_eq_right ((min_lt_iff.mp hm).resolve_left (lt_irrefl _)).le]
    exact contains_unboundedMagnitude hpos

/-! ## Underflow and overflow -/

/-- What rounds to zero is at most half of the least positive value. -/
theorem nearestMagnitude_eq_zero_iff (hx : 0 ≤ x) :
    nearestMagnitude f x = 0 ↔ 2 * x ≤ 2 ^ f.minExponent := by
  rw [nearestMagnitude_eq_iff hx f.infinity_pos, contains_roundingOf, Nat.zero_sub, Nat.zero_add,
    magnitudeValue_zero, magnitudeValue_one]
  constructor
  · rintro ⟨⟨-, hhigh⟩, -⟩
    linarith
  · intro h
    exact ⟨⟨by linarith, by linarith⟩, fun _ => rfl⟩

/-- The greatest finite value. -/
def greatest (f : Format) : Rat := magnitudeValue f (f.infinity - 1)

theorem greatest_lt (f : Format) : greatest f < 2 ^ f.maxExponent := by
  rw [greatest, ← magnitudeValue_infinity]
  exact magnitudeValue_strictMono f (Nat.sub_one_lt f.infinity_pos.ne')

/-- What rounds to infinity is at least in the middle between the greatest finite value and the next
power of two. -/
theorem nearestMagnitude_eq_infinity_iff (hx : 0 ≤ x) :
    nearestMagnitude f x = f.infinity ↔ greatest f + 2 ^ f.maxExponent ≤ 2 * x := by
  have hmono := magnitudeValue_strictMono f
  rw [greatest, ← magnitudeValue_infinity]
  constructor
  · intro h
    have hpos : 0 < x := hx.lt_of_ne fun hzero => by
      rw [nearestMagnitude, if_pos hzero.symm] at h
      exact f.infinity_pos.ne h
    rw [nearestMagnitude_eq hpos.ne', min_eq_left_iff] at h
    have hlow := (contains_roundingOf.mp (contains_unboundedMagnitude (f := f) hpos)).1.1
    have hpred := hmono.monotone (Nat.sub_le_sub_right h 1)
    linarith [hmono.monotone h]
  · intro h
    by_contra hne
    have hlt := (nearestMagnitude_le f x).lt_of_ne hne
    obtain ⟨⟨-, hhigh⟩, htie⟩ := contains_roundingOf.mp ((nearestMagnitude_eq_iff hx hlt).mp rfl)
    have hpred : magnitudeValue f (nearestMagnitude f x) ≤ magnitudeValue f (f.infinity - 1) :=
      hmono.monotone (Nat.le_sub_one_of_lt hlt)
    have hsucc : magnitudeValue f (nearestMagnitude f x + 1) ≤ magnitudeValue f f.infinity :=
      hmono.monotone hlt
    -- Only the middle itself is left, and its even neighbour is infinity.
    have heven := htie (.inr (by linarith))
    have hlast : nearestMagnitude f x = f.infinity - 1 := hmono.injective (by linarith)
    have hinf := f.infinity_even
    omega

end Binary

end Interop
