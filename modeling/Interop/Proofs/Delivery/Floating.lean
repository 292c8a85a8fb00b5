import Interop.Proofs.Delivery.Integral
import Interop.Proofs.Number.Exact

/-!
# Doubles for numeric types

A long takes a double exactly if it is one of its integers, a float if it is a number of single
precision, and a double always. The other numeric types never do: they count every double as a loss,
and cut its integer part to their width.

* `Binary.IsLong`, `Binary.Matches`: the doubles that a long and a float have.
* `NumericForm.DoubleCost`: what a double should cost. `NumericForm.doubleCost`: what it costs.
* `NumericForm.DoubleDelivery`: what it should become. `NumericForm.doubleDelivery`: what it
  becomes.
* `Host.Reachable.double_exact`: the delivery is exact precisely when the score says so.
-/

namespace Interop

/-- The double is the integer `k`, and `k` is one of 64 bits. -/
structure Binary.IsLong (x : Double) (k : Int) : Prop where
  value : x.value? = some (k : Rat)
  low : -2 ^ 63 ≤ k
  high : k < 2 ^ 63

namespace NumericForm

variable {target : NumericForm} {x : Double} {n : NativeValue} {cost : Nat}

/-! ## Exact doubles -/

theorem isLong_iff : isLong x ↔ ∃ k, x.IsLong k := by
  constructor
  · intro h
    unfold isLong Binary.isIntegral at h
    cases hv : x.value? with
    | none => simp [hv] at h
    | some v =>
      simp only [hv, Bool.and_eq_true, beq_iff_eq, decide_eq_true_eq] at h
      obtain ⟨⟨hden, hlow⟩, hhigh⟩ := h
      have hnum : (v.num : Rat) = v := Rat.coe_int_num_of_den_eq_one hden
      rw [← hnum] at hlow hhigh
      exact ⟨v.num, by rw [hnum, hv], by exact_mod_cast hlow, by exact_mod_cast hhigh⟩
  · rintro ⟨k, hv, hlow, hhigh⟩
    have hlow : (-0x8000000000000000 : Rat) ≤ k := by exact_mod_cast hlow
    have hhigh : (k : Rat) < 0x8000000000000000 := by exact_mod_cast hhigh
    simp [isLong, Binary.isIntegral, hv, hlow, hhigh]

theorem isSingle_iff : isSingle x ↔ ∃ s : Single, s.Matches x :=
  Binary.same_convert_convert_iff Format.single_within_double

/-! ## Scores -/

/-- What a double should cost. For a long and a float it costs nothing if they have it. A double
has each, and is charged for one that a long or a float has. -/
structure DoubleCost (target : NumericForm) (x : Double) (cost : Nat) : Prop where
  long : target = .long → (cost = 0 ↔ ∃ k, x.IsLong k)
  float : target = .float → (cost = 0 ↔ ∃ s : Single, s.Matches x)
  double : target = .double →
    cost = 0 ∧ ¬ ((∃ k, x.IsLong k) ∨ ∃ s : Single, s.Matches x) ∨
    cost = 1 ∧ ((∃ k, x.IsLong k) ∨ ∃ s : Single, s.Matches x)
  narrow : target.isNarrow → cost = 0x100
  inexact : target ≠ .double → cost ≠ 0 → cost = 0x100

theorem cost_exact_if (b : Bool) :
    ((if b then Score.exact else .lossy).cost = 0 ↔ b) ∧
      ((if b then Score.exact else .lossy).cost ≠ 0 →
        (if b then Score.exact else .lossy).cost = 0x100) := by
  cases b <;> decide

theorem doubleCost (target : NumericForm) (x : Double) :
    target.DoubleCost x (target.floatScore x).cost where
  long := by
    rintro rfl
    rw [← isLong_iff]
    exact (cost_exact_if (isLong x)).1
  float := by
    rintro rfl
    rw [← isSingle_iff]
    exact (cost_exact_if (isSingle x)).1
  double := by
    rintro rfl
    rw [← isLong_iff, ← isSingle_iff, ← Bool.or_eq_true, floatScore]
    split
    · rename_i h
      exact .inr ⟨rfl, h⟩
    · rename_i h
      exact .inl ⟨rfl, h⟩
  narrow := fun ht => cost_float_narrow ht x
  inexact := by
    intro hdouble hcost
    cases target with
    | double => exact absurd rfl hdouble
    | long => exact (cost_exact_if (isLong x)).2 hcost
    | float => exact (cost_exact_if (isSingle x)).2 hcost
    | byte | char | short | int => exact cost_float_narrow rfl x

/-! ## Deliveries -/

/-- What a double should become. The integral types deliver the integer of theirs that has the
lowest bits of its integer part, a long that is the double delivers it, and so does a float. -/
structure DoubleDelivery (target : NumericForm) (x : Double) (n : NativeValue) : Prop where
  integral : ∀ l, target.layout? = some l →
    ∃ k i, n.IsInteger target k ∧ x.TruncatesTo i ∧ k ≡ i [ZMOD 2 ^ l.width]
  long : target = .long → ∀ k, x.IsLong k → n.IsInteger .long k
  float : target = .float →
    n = .float (x.convert .single) ∧
      ∀ s : Single, s.Matches x → n = .float s ∧ s.convert .double = x
  double : target = .double → n = .double x

theorem doubleDelivery (target : NumericForm) (x : Double) :
    target.DoubleDelivery x (target.deliver (.float x)) where
  integral := by
    intro l hl
    obtain ⟨k, hk, hmod⟩ := exists_isInteger_deliver hl (.float x)
    exact ⟨k, _, hk, x.truncatesTo_toInt64, hmod⟩
  long := by
    rintro rfl k hk
    rw [← x.truncatesTo_toInt64.eq_of_value? hk.value hk.low hk.high]
    exact .long _
  float := by
    rintro rfl
    refine ⟨rfl, fun s hs => ⟨?_, hs.convert_eq⟩⟩
    rw [← hs.symm.convert_eq]
    rfl
  double := by
    rintro rfl
    rfl

/-- An integer is one long only. -/
theorem eq_long {i : Int64} (h : n.IsInteger .long i.toInt) : n = .long i := by
  generalize hk : i.toInt = k at h
  cases h
  rw [Int64.toInt_inj.mp hk]

end NumericForm

/-! ## Exact deliveries -/

namespace Host

/-- **Doubles.** A double, or a text that reads as it, is delivered to every numeric type. A long
and a float deliver the double itself just if it costs no more than its reading, and a double always
delivers it; where the type does not have it, the cost is that of a loss. -/
theorem Reachable.double_exact {h : Host} (hr : h.Reachable) {p : Primitive} {target : NumericForm}
    (hp : NumericForm.ofPrimitive? p = some target) {t : TypeId}
    (ht : t = Builtin.primitive p ∨ t = Builtin.wrapper p) {x : Double} {v : ScriptValue}
    {penalty : Nat} (hv : v.Gives (.float x) penalty) :
    (∃ n, (h.convert t v).1 = .ok n ∧ target.DoubleDelivery x n) ∧
    ∃ cost, (h.score t v).1.cost = cost + penalty ∧ target.DoubleCost x cost := by
  obtain ⟨hconvert, hcost⟩ := hr.numeric_of_gives hp ht hv
  exact ⟨⟨_, hconvert, target.doubleDelivery x⟩, _, hcost, target.doubleCost x⟩

/-- The doubles `-2 ^ 63` and `2 ^ 63`, of which a long has the first alone. -/
theorem double_exact_bounds :
    let least : Double := .ofBits .double 0xC3E0000000000000
    let above : Double := .ofBits .double 0x43E0000000000000
    let low := (Value.ofNumber (.float least)).script .initial 1
    let high := (Value.ofNumber (.float above)).script .initial 2
    initial.Reachable ∧ low.Gives (.float least) 0 ∧ high.Gives (.float above) 0 ∧
      least.IsLong (-2 ^ 63) ∧ (∀ k, ¬ above.IsLong k) ∧
      (initial.score (Builtin.wrapper .long) low).1.cost = 0 ∧
      (initial.convert (Builtin.wrapper .long) low).1 = .ok (.long Int64.minValue) ∧
      (initial.score (Builtin.primitive .long) high).1.cost = 0x100 := by
  intro least above low high
  have hlow : low.Gives (.float least) 0 := Value.gives_ofNumber _ _ _
  have hhigh : high.Gives (.float above) 0 := Value.gives_ofNumber _ _ _
  have hleast : least.IsLong (-2 ^ 63) := ⟨by decide +kernel, by decide, by decide⟩
  have habove : ∀ k, ¬ above.IsLong k := fun k hk => by
    have hv : above.value? = some ((2 ^ 63 : Int) : Rat) := by decide +kernel
    have heq : k = 2 ^ 63 := by exact_mod_cast Option.some.inj (hk.value.symm.trans hv)
    exact absurd heq hk.high.ne
  obtain ⟨⟨n, hn, hdelivery⟩, cost, hscore, hcost⟩ :=
    Reachable.initial.double_exact (p := .long) rfl (.inr rfl) hlow
  obtain ⟨-, cost', hscore', hcost'⟩ :=
    Reachable.initial.double_exact (p := .long) rfl (.inl rfl) hhigh
  have hloss : cost' = 0x100 := hcost'.inexact (by decide) fun hzero =>
    let ⟨k, hk⟩ := (hcost'.long rfl).mp hzero
    habove k hk
  refine ⟨.initial, hlow, hhigh, hleast, habove, ?_, ?_, by rw [hscore', hloss]⟩
  · rw [hscore, (hcost.long rfl).mpr ⟨_, hleast⟩]
  · have hmin : Int64.minValue.toInt = -2 ^ 63 := Int64.toInt_minValue
    have hlong := hdelivery.long rfl _ hleast
    rw [← hmin] at hlong
    rw [hn, NumericForm.eq_long hlong]

end Host

end Interop
