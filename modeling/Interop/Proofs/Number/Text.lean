import Interop.Proofs.Number.Reading
import Interop.Proofs.Number.Shortest

/-!
# Written numbers

What the written form of a number looks like.

* `digitsValue_toDigits`, `toDigits_append_zeros`: the digits of a natural number.
* `Decimal.isDecimal_positional`: a decimal written without an exponent is one of the grammar.
* `Binary.exists_text_small`: below `10 ^ 16` a double is written with a point, as a decimal that
  rounds to it.
* `Binary.exists_text_large`: from there on it is written as an integer that rounds to it.
-/

namespace Interop

variable {cs : List Char} {n k : Nat} {negative : Bool}

/-! ## Digits -/

theorem digitsValue_toDigits (n : Nat) : digitsValue (Nat.toDigits 10 n) = n :=
  Nat.ofDigitChars_ten_toDigits

theorem digitsValue_zeros_append (k : Nat) (cs : List Char) :
    digitsValue (List.replicate k '0' ++ cs) = digitsValue cs := by
  have h := Nat.ofDigitChars_append (b := 10) (l := List.replicate k '0') (m := cs) 0
  rwa [Nat.ofDigitChars_replicate_zero, Nat.mul_zero] at h

theorem digitsValue_append_zeros (cs : List Char) (k : Nat) :
    digitsValue (cs ++ List.replicate k '0') = digitsValue cs * 10 ^ k := by
  have h := Nat.ofDigitChars_append (b := 10) (l := cs) (m := List.replicate k '0') 0
  rw [Nat.ofDigitChars_replicate_zero, Nat.mul_comm] at h
  exact h

theorem isRun_toDigits (n : Nat) : IsRun isDigit (Nat.toDigits 10 n) := by
  refine ⟨Nat.toDigits_ne_nil, fun c hc => ?_⟩
  have h := Nat.isDigit_of_mem_toDigits (by decide) (by decide) hc
  rw [Char.isDigit, Bool.and_eq_true, decide_eq_true_eq, decide_eq_true_eq] at h
  rw [isDigit, Bool.and_eq_true, decide_eq_true_eq, decide_eq_true_eq]
  exact h

theorem isRun_append {digits : List Char} (hcs : ∀ c ∈ cs, isDigit c)
    (hd : IsRun isDigit digits) : IsRun isDigit (cs ++ digits) :=
  ⟨List.append_ne_nil_of_right_ne_nil cs hd.1, fun c hc =>
    (List.mem_append.mp hc).elim (hcs c) (hd.2 c)⟩

/-- Zeros after the digits multiply by a power of ten. -/
theorem toDigits_append_zeros (hn : 0 < n) (k : Nat) :
    Nat.toDigits 10 n ++ List.replicate k '0' = Nat.toDigits 10 (n * 10 ^ k) := by
  induction k with
  | zero => rw [List.replicate_zero, List.append_nil, Nat.pow_zero, Nat.mul_one]
  | succ k ih =>
    have hpos : 0 < n * 10 ^ k := Nat.mul_pos hn (Nat.pow_pos (by decide))
    have hstep := Nat.toDigits_append_toDigits (b := 10) (d := 0) (by decide) hpos (by decide)
    rw [Nat.toDigits_zero, Nat.add_zero] at hstep
    rw [List.replicate_succ', ← List.append_assoc, ih, hstep, Nat.pow_succ]
    congr 1
    ring

/-! ## Integers -/

/-- The sign that a number is written with. -/
def minus (negative : Bool) : List Char := if negative then ['-'] else []

theorem isSign_minus (negative : Bool) : IsSign (minus negative) negative := by
  cases negative
  · exact .absent
  · exact .minus

theorem signed_natAbs (i : Int) : signed (decide (i < 0)) i.natAbs = i := by
  rcases Int.lt_or_le i 0 with hneg | hpos
  · rw [decide_eq_true hneg, signed, if_pos rfl]
    omega
  · rw [decide_eq_false (Int.not_lt.mpr hpos), signed, if_neg Bool.false_ne_true]
    omega

theorem natAbs_signed (negative : Bool) (n : Nat) : (signed negative n).natAbs = n := by
  cases negative <;> simp [signed]

theorem toList_toString (i : Int) :
    (toString i).toList = minus (decide (i < 0)) ++ Nat.toDigits 10 i.natAbs := by
  rw [Int.toString_eq_repr, Int.repr_eq_if]
  split
  · rename_i hpos
    rw [Nat.toList_repr, decide_eq_false (by omega), show i.toNat = i.natAbs by omega]
    rfl
  · rename_i hneg
    rw [String.toList_append, Nat.toList_repr, decide_eq_true (by omega),
      show (-i).toNat = i.natAbs by omega]
    rfl

theorem toList_toString_signed (hn : 0 < n) (negative : Bool) :
    (toString (signed negative n)).toList = minus negative ++ Nat.toDigits 10 n := by
  have hsign : decide (signed negative n < 0) = negative := by
    cases negative <;> simp [signed, hn]
  rw [toList_toString, hsign, natAbs_signed]

/-! ## Decimals without an exponent -/

namespace Decimal

variable {d : Decimal}

theorem toList_positional_of_nonneg (h : 0 ≤ d.exponent) (hc : 0 < d.coefficient) :
    d.positional.toList = Nat.toDigits 10 (d.coefficient * 10 ^ d.exponent.toNat) := by
  rw [positional]
  dsimp only
  rw [if_pos h, String.toList_ofList, toDigits_append_zeros hc]

theorem toRat_of_nonneg (h : 0 ≤ d.exponent) :
    d.toRat = (d.coefficient * 10 ^ d.exponent.toNat : Nat) := by
  obtain ⟨e, he⟩ := Int.eq_ofNat_of_zero_le h
  rw [toRat, he, Int.toNat_natCast, zpow_natCast, Nat.cast_mul, Nat.cast_pow, Nat.cast_ofNat]

/-- One decimal, a zero, is written for a natural number. -/
theorem isDecimal_oneDecimal (n : Nat) :
    IsDecimal (Nat.toDigits 10 n ++ ['.', '0']) ⟨n * 10, -1⟩ := by
  have hrun : IsRun isDigit (Nat.toDigits 10 n ++ ['0']) :=
    isRun_append (isRun_toDigits n).2 (isRun_toDigits 0)
  have hvalue : digitsValue (Nat.toDigits 10 n ++ ['0']) = n * 10 := by
    have h := digitsValue_append_zeros (Nat.toDigits 10 n) 1
    rwa [digitsValue_toDigits] at h
  have hdec := IsDecimal.point hrun .absent
  rwa [hvalue, List.append_nil] at hdec

/-- With a negative exponent, the digits of the coefficient stand around a point. -/
theorem isDecimal_positional (h : d.exponent < 0) :
    IsDecimal d.positional.toList d ∧ '.' ∈ d.positional.toList := by
  set places := (-d.exponent).toNat with hplaces
  set padded := List.replicate (places + 1 - (Nat.toDigits 10 d.coefficient).length) '0' ++
    Nat.toDigits 10 d.coefficient with hpadded
  have hlist : d.positional.toList = padded.take (padded.length - places) ++
      '.' :: padded.drop (padded.length - places) := by
    rw [positional]
    dsimp only
    rw [if_neg (by omega), String.append_assoc]
    simp only [String.toList_append, String.toList_ofList]
    rfl
  have hlength : (padded.drop (padded.length - places)).length = places := by
    have : places + 1 ≤ padded.length := by
      rw [hpadded, List.length_append, List.length_replicate]
      omega
    rw [List.length_drop]
    omega
  have hrun : IsRun isDigit (padded.take (padded.length - places) ++
      padded.drop (padded.length - places)) := by
    rw [List.take_append_drop]
    refine isRun_append (fun c hc => ?_) (isRun_toDigits _)
    rw [(List.mem_replicate.mp hc).2]
    decide
  have hdec := IsDecimal.point hrun .absent
  rw [List.take_append_drop, hpadded, digitsValue_zeros_append, digitsValue_toDigits, ← hpadded,
    hlength, List.append_nil, ← hlist] at hdec
  have hexp : (0 : Int) - places = d.exponent := by omega
  rw [hexp] at hdec
  exact ⟨hdec, by rw [hlist]; simp⟩

end Decimal

/-! ## Doubles -/

namespace Binary

variable {x : Double}

theorem value?_of_isFinite (hx : x.isFinite) :
    x.value? = some (if x.negative then -x.absValue else x.absValue) := by
  rw [value?, if_pos hx]

theorem isIntegral_iff (hx : x.isFinite) : x.isIntegral ↔ ∃ n : Nat, x.absValue = n := by
  have hden : x.isIntegral ↔ x.absValue.den = 1 := by
    rw [isIntegral, value?_of_isFinite hx, beq_iff_eq]
    cases x.negative
    · rfl
    · rw [if_pos rfl, Rat.neg_den]
  rw [hden]
  constructor
  · intro h
    have hnum := Rat.num_nonneg.mpr (magnitudeValue_nonneg Format.double x.magnitude)
    obtain ⟨n, hn⟩ := Int.eq_ofNat_of_zero_le hnum
    refine ⟨n, ?_⟩
    rw [← Rat.intCast_natCast, ← hn]
    exact ((Rat.den_eq_one_iff _).mp h).symm
  · rintro ⟨n, hn⟩
    rw [hn, Rat.den_natCast]

/-- The written form of a finite double after its sign. -/
def body (x : Double) : List Char :=
  if x.isIntegral && x.absValue < plainFrom then
    Nat.toDigits 10 x.absValue.floor.toNat ++ ['.', '0']
  else x.shortest.positional.toList

theorem toList_text (hx : x.isFinite) : x.text.toList = minus x.negative ++ x.body := by
  have hlt : x.magnitude < Format.double.infinity := of_decide_eq_true hx
  have hnan : x.isNaN = false := decide_eq_false hlt.not_gt
  have hinf : x.isInfinite = false := beq_eq_false_iff_ne.mpr hlt.ne
  have hbody : (if x.isIntegral && x.absValue < plainFrom then toString x.absValue.floor ++ ".0"
      else x.shortest.positional).toList = x.body := by
    unfold body
    split
    · have hfloor : 0 ≤ x.absValue.floor :=
        Rat.le_floor_iff.mpr (magnitudeValue_nonneg Format.double x.magnitude)
      obtain ⟨n, hn⟩ := Int.eq_ofNat_of_zero_le hfloor
      rw [hn, String.toList_append, toList_toString, decide_eq_false (by omega)]
      rfl
    · rfl
  simp only [text, hnan, hinf, Bool.false_eq_true, if_false]
  cases x.negative with
  | true =>
    rw [if_pos rfl, String.toList_append, hbody]
    rfl
  | false =>
    rw [if_neg Bool.false_ne_true, hbody]
    rfl

/-- Below `10 ^ 16` a double is written with a point, as a decimal that rounds to it. -/
theorem exists_text_small (hx : x.isFinite) (hsmall : x.absValue < plainFrom) :
    ∃ d, IsDecimal x.body d ∧ '.' ∈ x.body ∧ x.rounding.contains d.toRat := by
  by_cases hint : x.isIntegral
  · obtain ⟨n, hn⟩ := (isIntegral_iff hx).mp hint
    have hbody : x.body = Nat.toDigits 10 n ++ ['.', '0'] := by
      rw [body, hint, decide_eq_true hsmall, Bool.and_self, if_pos rfl, hn, ← Rat.intCast_natCast,
        Rat.floor_intCast, Int.toNat_natCast]
    have hrat : Decimal.toRat ⟨n * 10, -1⟩ = x.absValue := by
      rw [hn, Decimal.toRat, Nat.cast_mul]
      norm_num
      ring
    refine ⟨_, hbody ▸ Decimal.isDecimal_oneDecimal n, by rw [hbody]; simp, ?_⟩
    rw [hrat]
    exact contains_self _ _
  · have hfraction : ¬ ∃ n : Nat, x.absValue = n := fun h => hint ((isIntegral_iff hx).mpr h)
    have hne : x.magnitude ≠ 0 := fun h =>
      hfraction ⟨0, by rw [absValue, h, magnitudeValue_zero, Nat.cast_zero]⟩
    have hexp : x.shortest.exponent < 0 :=
      Int.not_le.mp (mt (shortest_exponent_nonneg_iff hne).mp hfraction)
    have hbody : x.body = x.shortest.positional.toList := by
      rw [body, eq_false_of_ne_true hint, Bool.false_and, if_neg Bool.false_ne_true]
    obtain ⟨hdec, hpoint⟩ := Decimal.isDecimal_positional hexp
    exact ⟨x.shortest, hbody ▸ hdec, hbody ▸ hpoint, contains_shortest hne⟩

/-- Doubles from `10 ^ 16` on have no fraction. -/
theorem isIntegral_of_large (hlarge : plainFrom ≤ x.absValue) : ∃ n : Nat, x.absValue = n := by
  by_contra hfraction
  have hlt : x.absValue < (Format.double.binade : Rat) := lt_binade_of_fraction hfraction
  have hbinade : (Format.double.binade : Rat) ≤ plainFrom := by
    rw [plainFrom]
    exact_mod_cast (by decide : Format.double.binade ≤ 10000000000000000)
  exact absurd (hlt.trans_le hbinade) hlarge.not_gt

/-- From `10 ^ 16` on a double is written as an integer that rounds to it. -/
theorem exists_text_large (hlarge : plainFrom ≤ x.absValue) :
    ∃ n, 0 < n ∧ x.body = Nat.toDigits 10 n ∧ x.rounding.contains n := by
  have hne : x.magnitude ≠ 0 := by
    intro h
    rw [absValue, h, magnitudeValue_zero, plainFrom] at hlarge
    exact absurd hlarge (by norm_num)
  have hexp := (shortest_exponent_nonneg_iff hne).mpr (isIntegral_of_large hlarge)
  have hin := contains_shortest hne
  have hc := Decimal.coefficient_pos (pos_of_contains hne hin)
  rw [Decimal.toRat_of_nonneg hexp] at hin
  refine ⟨_, Nat.mul_pos hc (Nat.pow_pos (by decide)), ?_, hin⟩
  rw [body, decide_eq_false hlarge.not_gt, Bool.and_false, if_neg Bool.false_ne_true,
    Decimal.toList_positional_of_nonneg hexp hc]

end Binary

end Interop
