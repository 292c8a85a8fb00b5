import Interop.Proofs.Number.Nearest

/-!
# The shortest decimal

The search for the shortest decimal of a number ends on the coarsest grid with a point in the
rounding interval of the number.

* `floorLog10_spec`: where the search begins.
* `Interval.coarsest_spec`: the search finds a point if there is one within its bound, and on a grid
  at least as coarse. `Interval.onGrid?_of_coarsest_lt`: it passes no point by.
* `Binary.contains_shortest`: the shortest decimal lies in the rounding interval.
  `Binary.exponent_le_shortest`: no decimal of a coarser grid does.
* `Binary.shortest_exponent_nonneg_iff`: it is an integer iff the number is.
-/

namespace Interop

/-! ## Logarithms to base ten -/

theorem decimalLength_spec (n : Nat) :
    n < 10 ^ decimalLength n ∧ (n ≠ 0 → 10 ^ decimalLength n ≤ 10 * n) := by
  induction n using decimalLength.induct with
  | case1 =>
    rw [decimalLength, if_pos rfl]
    exact ⟨by decide, fun h => absurd rfl h⟩
  | case2 n hn ih =>
    obtain ⟨hlt, hle⟩ := ih
    rw [decimalLength, if_neg hn, Nat.pow_succ]
    refine ⟨by omega, fun _ => ?_⟩
    by_cases hsmall : n / 10 = 0
    · rw [hsmall, decimalLength, if_pos rfl]
      omega
    · have := hle hsmall
      omega

private theorem decimalLength_bounds {n : Nat} (hn : n ≠ 0) :
    (10 : Rat) ^ (decimalLength n : Int) ≤ 10 * n ∧
      (n + 1 : Rat) ≤ 10 ^ (decimalLength n : Int) := by
  obtain ⟨hlt, hle⟩ := decimalLength_spec n
  rw [zpow_natCast]
  exact ⟨by exact_mod_cast hle hn, by exact_mod_cast hlt⟩

/-- `10 ^ floorLog10 x ≤ x < 10 ^ (floorLog10 x + 1)`. -/
theorem floorLog10_spec {x : Rat} (hx : 0 < x) :
    (10 : Rat) ^ floorLog10 x ≤ x ∧ x < 10 ^ (floorLog10 x + 1) := by
  unfold floorLog10
  split
  · rename_i hone
    have hfloor : 1 ≤ x.floor := Rat.le_floor_iff.mpr (by exact_mod_cast hone)
    obtain ⟨n, hn⟩ := Int.eq_ofNat_of_zero_le (show 0 ≤ x.floor by omega)
    obtain ⟨hlow, hhigh⟩ := decimalLength_bounds (show n ≠ 0 by omega)
    have hle := Rat.floor_le x
    have hlt := Rat.lt_floor_add_one x
    rw [hn] at hle hlt ⊢
    push_cast at hle hlt
    rw [Int.toNat_natCast, sub_add_cancel, zpow_sub_one₀ (by norm_num)]
    constructor <;> linarith
  · rename_i hone
    have hinv : 1 < x⁻¹ := (one_lt_inv₀ hx).mpr (not_le.mp hone)
    have hceil : 1 < x⁻¹.ceil := Rat.lt_ceil_iff.mpr (by exact_mod_cast hinv)
    obtain ⟨n, hn⟩ := Int.eq_ofNat_of_zero_le (show 0 ≤ x⁻¹.ceil - 1 by omega)
    obtain ⟨hlow, hhigh⟩ := decimalLength_bounds (show n ≠ 0 by omega)
    have hle : x⁻¹ ≤ n + 1 := by
      have h : x⁻¹ ≤ (x⁻¹.ceil : Rat) := Rat.le_ceil
      rw [show x⁻¹.ceil = n + 1 by omega] at h
      exact_mod_cast h
    have hlt : (n : Rat) < x⁻¹ := by
      have h : ((n : Int) : Rat) < x⁻¹ := Rat.lt_ceil_iff.mp (by omega)
      exact_mod_cast h
    change (10 : Rat) ^ (-(decimalLength (x⁻¹.ceil - 1).toNat : Int)) ≤ x ∧
      x < 10 ^ (-(decimalLength (x⁻¹.ceil - 1).toNat : Int) + 1)
    rw [hn, Int.toNat_natCast, zpow_add_one₀ (by norm_num), zpow_neg]
    constructor
    · exact inv_le_of_inv_le₀ hx (hle.trans hhigh)
    · have h := mul_lt_mul_of_pos_left hlt hx
      rw [mul_inv_cancel₀ hx.ne'] at h
      rw [inv_mul_eq_div, lt_div_iff₀ (by positivity)]
      have := mul_le_mul_of_nonneg_left hlow hx.le
      linarith

/-! ## The search -/

/-- The grid point below a number is less than one unit away. -/
theorem floor_grid {v u : Rat} (hv : 0 ≤ v) (hu : 0 < u) :
    ((v / u).floor.toNat : Rat) * u ≤ v ∧ v < ((v / u).floor.toNat : Rat) * u + u := by
  have hfloor : 0 ≤ (v / u).floor := Rat.le_floor_iff.mpr (by simpa using div_nonneg hv hu.le)
  obtain ⟨b, hb⟩ := Int.eq_ofNat_of_zero_le hfloor
  have hle := Rat.floor_le (v / u)
  have hlt := Rat.lt_floor_add_one (v / u)
  rw [hb, Rat.intCast_natCast, le_div_iff₀ hu] at hle
  rw [hb, div_lt_iff₀ hu] at hlt
  push_cast at hlt
  rw [hb, Int.toNat_natCast]
  exact ⟨hle, by linarith⟩

namespace Interval

variable {i : Interval} {x y z : Rat} {e : Int} {d : Decimal} {k fuel : Nat}

/-- An interval holds what lies between two of its points. -/
theorem contains_between (hy : i.contains y) (hz : i.contains z) (hyx : y ≤ x) (hxz : x ≤ z) :
    i.contains x := by
  unfold contains at *
  split at hy
  · rename_i hclosed
    simp only [hclosed, if_true, Bool.and_eq_true, decide_eq_true_eq] at *
    exact ⟨hy.1.trans hyx, hxz.trans hz.2⟩
  · rename_i hopen
    simp only [hopen, if_false, Bool.false_eq_true, Bool.and_eq_true, decide_eq_true_eq] at *
    exact ⟨hy.1.trans_le hyx, hxz.trans_lt hz.2⟩

theorem of_onGrid? (h : i.onGrid? x e = some d) : d.exponent = e ∧ i.contains d.toRat := by
  unfold onGrid? at h
  dsimp only at h
  split at h
  · rename_i hbelow
    cases h
    exact ⟨rfl, (Bool.and_eq_true_iff.mp hbelow).1⟩
  split at h
  · rename_i habove
    cases h
    exact ⟨rfl, habove⟩
  · cases h

theorem onGrid?_eq_none_iff : i.onGrid? x e = none ↔
    ¬ i.contains ((x / (10 : Rat) ^ e).floor.toNat * (10 : Rat) ^ e) ∧
      ¬ i.contains (((x / (10 : Rat) ^ e).floor.toNat + 1 : Nat) * (10 : Rat) ^ e) := by
  unfold onGrid?
  dsimp only
  generalize (x / (10 : Rat) ^ e).floor.toNat = below
  cases i.contains (below * (10 : Rat) ^ e) <;>
    cases i.contains ((below + 1 : Nat) * (10 : Rat) ^ e)
  · simp
  · simp
  · simp
  · -- Both neighbours lie in the interval, and one of them is nearer.
    simp only [Bool.true_and, if_true, not_true_eq_false, and_false, iff_false]
    split <;> nofun

/-- A grid has a point in the interval if its neighbour below `x` is one. -/
theorem onGrid?_isSome (h : i.contains ((x / (10 : Rat) ^ e).floor.toNat * (10 : Rat) ^ e)) :
    ∃ d, i.onGrid? x e = some d :=
  Option.ne_none_iff_exists'.mp fun hnone => (onGrid?_eq_none_iff.mp hnone).1 h

/-- If a grid has no point next to `x` in the interval, it has no point in it. -/
theorem not_contains_of_onGrid? (hx : 0 ≤ x) (hin : i.contains x) (h : i.onGrid? x e = none)
    (c : Nat) : ¬ i.contains (c * (10 : Rat) ^ e) := by
  have hunit := ten_zpow_pos e
  obtain ⟨hbelow, habove⟩ := floor_grid hx hunit
  obtain ⟨hnoBelow, hnoAbove⟩ := onGrid?_eq_none_iff.mp h
  generalize (x / (10 : Rat) ^ e).floor.toNat = below at *
  intro hc
  -- The neighbour on the side of the point lies between the point and `x`.
  rcases Nat.lt_or_ge below c with hlt | hge
  · have hle : ((below + 1 : Nat) : Rat) * 10 ^ e ≤ c * 10 ^ e :=
      mul_le_mul_of_nonneg_right (by exact_mod_cast hlt) hunit.le
    refine hnoAbove (contains_between hin hc ?_ hle)
    push_cast
    linarith
  · have hle : (c : Rat) * 10 ^ e ≤ below * 10 ^ e :=
      mul_le_mul_of_nonneg_right (by exact_mod_cast hge) hunit.le
    exact hnoBelow (contains_between hc hin hle hbelow)

/-- The search finds a point of the interval if some grid within its bound has one next to `x`,
and on a grid at least as coarse. -/
theorem coarsest_spec (hk : k < fuel) (h : ∃ d, i.onGrid? x (e - k) = some d) :
    i.contains (i.coarsest x fuel e).toRat ∧ e - k ≤ (i.coarsest x fuel e).exponent := by
  induction fuel generalizing e k with
  | zero => exact absurd hk (Nat.not_lt_zero k)
  | succ fuel ih =>
    rw [coarsest]
    split
    · rename_i d hd
      obtain ⟨hexp, hin⟩ := of_onGrid? hd
      exact ⟨hin, by omega⟩
    · rename_i hnone
      cases k with
      | zero =>
        obtain ⟨d, hd⟩ := h
        rw [Nat.cast_zero, sub_zero, hnone] at hd
        cases hd
      | succ k =>
        have hstep : e - (k + 1 : Nat) = e - 1 - k := by omega
        rw [hstep] at h ⊢
        exact ih (Nat.lt_of_succ_lt_succ hk) h

/-- The search passes by no grid with a point next to `x`. -/
theorem onGrid?_of_coarsest_lt {e' : Int} (h : (i.coarsest x fuel e).exponent < e') (he : e' ≤ e) :
    i.onGrid? x e' = none := by
  induction fuel generalizing e with
  | zero =>
    rw [coarsest] at h
    exact absurd h (Int.not_lt.mpr he)
  | succ fuel ih =>
    rw [coarsest] at h
    split at h
    · rename_i d hd
      rw [(of_onGrid? hd).1] at h
      exact absurd h (Int.not_lt.mpr he)
    · rename_i hnone
      rcases he.lt_or_eq with hlt | rfl
      · exact ih h (Int.le_sub_one_of_lt hlt)
      · exact hnone

end Interval

namespace Binary

variable {f : Format} {m n k s : Nat} {x : Rat}

/-! ## Gaps -/

/-- The gap below a number is at least its value by the count of significands. -/
theorem magnitudeValue_le_gap (hm : 0 < m) : magnitudeValue f m ≤
    2 * f.binade * (magnitudeValue f m - magnitudeValue f (m - 1)) := by
  obtain ⟨k, s, rfl, h, hs⟩ := exists_parts f m
  have hunit := spacing_pos f k
  have hs' : (s : Rat) ≤ 2 * f.binade := by exact_mod_cast hs.le
  rcases magnitudeValue_pred h hs.le hm with hpred | ⟨-, rfl, hpred⟩
  · calc magnitudeValue f (k * f.binade + s) = s * spacing f k := magnitudeValue_parts h hs.le
      _ ≤ 2 * f.binade * spacing f k := mul_le_mul_of_nonneg_right hs' hunit.le
      _ = _ := by
        rw [hpred, magnitudeValue_parts h hs.le]
        ring
  · rw [hpred, magnitudeValue_parts h hs.le]
    exact le_of_eq (by ring)

theorem magnitudeValue_succ_le (hm : 0 < m) :
    magnitudeValue f (m + 1) ≤ 2 * magnitudeValue f m := by
  obtain ⟨k, s, rfl, h, hs⟩ := exists_parts f m
  have hs1 : (1 : Rat) ≤ s := by
    have hb := f.binade_pos
    rcases h with rfl | h
    · exact_mod_cast (by omega : 1 ≤ s)
    · exact_mod_cast hb.trans_le h
  rw [magnitudeValue_succ h hs, magnitudeValue_parts h hs.le, ← mul_assoc]
  exact mul_le_mul_of_nonneg_right (by linarith) (spacing_pos f k).le

/-! ## The shortest decimal -/

variable {x : Binary f}

/-- A grid of at most half the gap below the number has a point in the rounding interval. -/
theorem onGrid?_of_fine {e : Int}
    (he : 2 * (10 : Rat) ^ e ≤ magnitudeValue f m - magnitudeValue f (m - 1)) :
    ∃ d, (roundingOf f m).onGrid? (magnitudeValue f m) e = some d := by
  apply Interval.onGrid?_isSome
  have hgrid := floor_grid (magnitudeValue_nonneg f m) (show (0 : Rat) < 10 ^ e by positivity)
  have hnext := magnitudeValue_lt_succ f m
  rw [contains_roundingOf]
  refine ⟨⟨by linarith, by linarith⟩, ?_⟩
  rintro (h | h) <;> exfalso <;> linarith

theorem absValue_pos (hx : x.magnitude ≠ 0) : 0 < x.absValue := magnitudeValue_pos hx

/-- The finest grid that is searched is fine enough. -/
theorem onGrid?_finest (hx : x.magnitude ≠ 0) : ∃ d, x.rounding.onGrid? x.absValue
    (floorLog10 x.absValue + 1 - (f.fractionBits + 3 : Nat)) = some d := by
  apply onGrid?_of_fine
  have hlog := (floorLog10_spec (absValue_pos hx)).1
  have hgap := magnitudeValue_le_gap (f := f) (Nat.pos_of_ne_zero hx)
  have hexp : floorLog10 x.absValue + 1 - (f.fractionBits + 3 : Nat) =
      floorLog10 x.absValue - (f.fractionBits + 2 : Nat) := by
    push_cast
    ring
  have hpow : (2 : Rat) ^ (f.fractionBits + 2) ≤ 10 ^ (f.fractionBits + 2) :=
    pow_le_pow_left₀ (by norm_num) (by norm_num) _
  have hbinade : (2 : Rat) ^ (f.fractionBits + 2) = 4 * f.binade := by
    rw [f.cast_binade, zpow_natCast, pow_add]
    ring
  set gap := magnitudeValue f x.magnitude - magnitudeValue f (x.magnitude - 1)
  have hgap0 : 0 ≤ gap := by
    have := (magnitudeValue_strictMono f).monotone (Nat.sub_le x.magnitude 1)
    exact sub_nonneg.mpr this
  rw [hexp, zpow_sub₀ (by norm_num), zpow_natCast, ← mul_div_assoc,
    div_le_iff₀ (by positivity)]
  calc 2 * (10 : Rat) ^ floorLog10 x.absValue ≤ 2 * (2 * f.binade * gap) := by
        linarith [hlog.trans hgap]
    _ = gap * 2 ^ (f.fractionBits + 2) := by
        rw [hbinade]
        ring
    _ ≤ gap * 10 ^ (f.fractionBits + 2) := mul_le_mul_of_nonneg_left hpow hgap0

/-- **Reading back.** The shortest decimal of a number rounds to it. -/
theorem contains_shortest (hx : x.magnitude ≠ 0) : x.rounding.contains x.shortest.toRat :=
  (Interval.coarsest_spec (Nat.lt_succ_self _) (onGrid?_finest hx)).1

/-- **Shortest digits.** No decimal of a coarser grid rounds to the number. -/
theorem exponent_le_shortest {d : Decimal} (hx : x.magnitude ≠ 0)
    (h : x.rounding.contains d.toRat) : d.exponent ≤ x.shortest.exponent := by
  have hpos := absValue_pos hx
  have hin := contains_self f x.magnitude
  by_contra hlt
  by_cases hstart : d.exponent ≤ floorLog10 x.absValue + 1
  · have hnone := Interval.onGrid?_of_coarsest_lt (not_le.mp hlt) hstart
    exact Interval.not_contains_of_onGrid? hpos.le hin hnone d.coefficient h
  · -- A decimal above the first grid is more than twice the number.
    have hc : (1 : Rat) ≤ d.coefficient := by
      exact_mod_cast Decimal.coefficient_pos (pos_of_contains hx h)
    have hstep : (10 : Rat) ^ (floorLog10 x.absValue + 1 + 1) ≤ 10 ^ d.exponent :=
      ten_zpow_le (not_le.mp hstart)
    have hunit : (10 : Rat) ^ d.exponent ≤ d.toRat :=
      le_mul_of_one_le_left (ten_zpow_pos _).le hc
    have hnumber : magnitudeValue f x.magnitude < 10 ^ (floorLog10 x.absValue + 1) :=
      (floorLog10_spec hpos).2
    have hend := (contains_roundingOf.mp h).1.2
    have hnext := magnitudeValue_succ_le (f := f) (Nat.pos_of_ne_zero hx)
    have hfirst := ten_zpow_pos (floorLog10 x.absValue + 1)
    rw [zpow_add_one₀ (by norm_num)] at hstep
    linarith

/-! ## Integers -/

/-- The distance of neighbours is an integer, or one over a power of two. -/
theorem spacing_cases (f : Format) (k : Nat) :
    (∃ u : Nat, spacing f k = u) ∨ ∃ j : Nat, spacing f k * 2 ^ (j + 1) = 1 := by
  rcases Int.lt_or_le (f.minExponent + k) 0 with hneg | hpos
  · right
    obtain ⟨j, hj⟩ := Int.eq_ofNat_of_zero_le (show 0 ≤ -(f.minExponent + k) - 1 by omega)
    refine ⟨j, ?_⟩
    rw [spacing, ← zpow_natCast, ← two_zpow_add,
      show f.minExponent + k + (j + 1 : Nat) = 0 by push_cast; omega, zpow_zero]
  · left
    obtain ⟨e, he⟩ := Int.eq_ofNat_of_zero_le hpos
    exact ⟨2 ^ e, by rw [spacing, he, zpow_natCast, Nat.cast_pow, Nat.cast_ofNat]⟩

/-- An integer rounds to an integer. -/
theorem exists_nat_of_contains {n : Nat} (h : (roundingOf f m).contains n) :
    ∃ a : Nat, magnitudeValue f m = a := by
  obtain ⟨k, s, rfl, hk, hs⟩ := exists_parts f m
  have hval := magnitudeValue_parts hk hs.le
  rcases spacing_cases f k with ⟨u, hu⟩ | ⟨j, hj⟩
  · exact ⟨s * u, by rw [hval, hu, Nat.cast_mul]⟩
  · have hunit := spacing_pos f k
    have hn : (n : Rat) = (n * 2 ^ (j + 1) : Nat) * spacing f k := by
      push_cast
      rw [mul_assoc, mul_comm _ (spacing f k), hj, mul_one]
    obtain ⟨⟨hlow, hhigh⟩, -⟩ := contains_roundingOf.mp h
    generalize n * 2 ^ (j + 1) = t at hn
    have hle : t ≤ s := by
      rw [magnitudeValue_succ hk hs, hval, hn, ← add_mul, ← mul_assoc,
        mul_le_mul_iff_left₀ hunit] at hhigh
      norm_cast at hhigh
      omega
    have hge : s ≤ t := by
      rcases Nat.eq_zero_or_pos (k * f.binade + s) with hzero | hpos
      · omega
      have hprev : (s - 1 : Rat) * spacing f k ≤ magnitudeValue f (k * f.binade + s - 1) := by
        rcases magnitudeValue_pred hk hs.le hpos with hp | ⟨-, -, hp⟩
        · exact hp.ge
        · rw [hp]
          exact mul_le_mul_of_nonneg_right (by linarith) hunit.le
      have hsum : (s - 1 + s : Rat) * spacing f k ≤ 2 * t * spacing f k := by
        rw [hn] at hlow
        linarith
      have := le_of_mul_le_mul_right hsum hunit
      have : (2 * s : Rat) ≤ 2 * t + 1 := by linarith
      norm_cast at this
      omega
    exact ⟨n, by rw [hval, hn, Nat.le_antisymm hle hge]⟩

/-- A number with a fraction is below the count of significands. -/
theorem lt_binade_of_fraction (h : ¬ ∃ a : Nat, magnitudeValue f m = a) :
    magnitudeValue f m < f.binade := by
  obtain ⟨k, s, rfl, hk, hs⟩ := exists_parts f m
  have hval := magnitudeValue_parts hk hs.le
  have hs' : (s : Rat) < 2 * f.binade := by exact_mod_cast hs
  rcases spacing_cases f k with ⟨u, hu⟩ | ⟨j, hj⟩
  · exact absurd ⟨s * u, by rw [hval, hu, Nat.cast_mul]⟩ h
  · have hpow : (2 : Rat) ≤ 2 ^ (j + 1) := by
      have hone : (1 : Rat) ≤ 2 ^ j := one_le_pow₀ one_le_two
      rw [pow_succ]
      linarith
    have hunit := spacing_pos f k
    have hhalf : spacing f k * 2 ≤ 1 := by
      rw [← hj]
      exact mul_le_mul_of_nonneg_left hpow hunit.le
    rw [hval]
    have := mul_lt_mul_of_pos_right hs' hunit
    have hb : (0 : Rat) ≤ f.binade := Nat.cast_nonneg _
    have := mul_le_mul_of_nonneg_left hhalf hb
    linarith

theorem shortest_exponent_nonneg {n : Nat} (hx : x.magnitude ≠ 0) (hn : x.absValue = n) :
    0 ≤ x.shortest.exponent := by
  have hpos := absValue_pos hx
  have hlog : 0 < floorLog10 x.absValue + 1 := by
    have hone : (1 : Rat) ≤ x.absValue := by
      rw [hn] at hpos ⊢
      exact_mod_cast hpos
    have hlt := hone.trans_lt (floorLog10_spec hpos).2
    by_contra hle
    have := ten_zpow_le (Int.not_lt.mp hle)
    rw [zpow_zero] at this
    linarith
  obtain ⟨k, hk⟩ := Int.eq_ofNat_of_zero_le hlog.le
  by_cases hfuel : k < f.fractionBits + 4
  · -- The search comes past the grid of the integers, on which the number itself lies.
    have hhit : ∃ d, x.rounding.onGrid? x.absValue (floorLog10 x.absValue + 1 - k) = some d := by
      apply Interval.onGrid?_isSome
      have hzero : floorLog10 x.absValue + 1 - k = 0 := by omega
      have hfloor : ((n : Rat).floor).toNat = n := by
        rw [← Rat.intCast_natCast, Rat.floor_intCast, Int.toNat_natCast]
      rw [hzero, zpow_zero, div_one, mul_one, hn, hfloor, ← hn]
      exact contains_self f x.magnitude
    have := (Interval.coarsest_spec hfuel hhit).2
    rw [shortest]
    omega
  · have hfinest : f.fractionBits + 3 < f.fractionBits + 4 := Nat.lt_add_one _
    have := (Interval.coarsest_spec hfinest (onGrid?_finest hx)).2
    rw [shortest]
    omega

/-- The shortest decimal of a number is an integer iff the number is. -/
theorem shortest_exponent_nonneg_iff (hx : x.magnitude ≠ 0) :
    0 ≤ x.shortest.exponent ↔ ∃ n : Nat, x.absValue = n := by
  refine ⟨fun h => ?_, fun ⟨n, hn⟩ => shortest_exponent_nonneg hx hn⟩
  obtain ⟨e, he⟩ := Int.eq_ofNat_of_zero_le h
  have hint : x.shortest.toRat = (x.shortest.coefficient * 10 ^ e : Nat) := by
    rw [Decimal.toRat, he, zpow_natCast, Nat.cast_mul, Nat.cast_pow, Nat.cast_ofNat]
  exact exists_nat_of_contains (hint ▸ contains_shortest hx)

end Binary

end Interop
