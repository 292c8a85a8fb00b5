import Interop.Proofs.Delivery.TextNumber

/-!
# Integers for integral types

An integral type takes every integer: it delivers the one of its own integers that has the same
lowest bits. The score says whether that is the integer itself.

* `Layout`: the integers that an integral type has.
* `NumericForm.exists_isInteger_deliver`: what an integral type delivers.
* `NumericForm.IntegerCost`: what an integer should cost. `NumericForm.integerCost`: what it costs.
* `Host.Reachable.integer_exact`: the delivery is exact precisely when the score says so.
-/

namespace Interop

/-! ## Integral types -/

/-- The bits of an integral type, and whether it has negative integers. -/
structure Layout where
  width : Nat
  isSigned : Bool

namespace Layout

def byte : Layout := ⟨8, true⟩

def char : Layout := ⟨16, false⟩

def short : Layout := ⟨16, true⟩

def int : Layout := ⟨32, true⟩

def long : Layout := ⟨64, true⟩

/-- The integers that the bits can stand for. -/
def Holds (l : Layout) (i : Int) : Prop :=
  if l.isSigned then -2 ^ (l.width - 1) ≤ i ∧ i < 2 ^ (l.width - 1)
  else 0 ≤ i ∧ i < 2 ^ l.width

instance (l : Layout) (i : Int) : Decidable (l.Holds i) := by
  unfold Holds
  infer_instance

end Layout

/-- `n` is the integer `i` in an integral type. -/
inductive NativeValue.IsInteger : (n : NativeValue) → (target : NumericForm) → (i : Int) → Prop
  | byte (i : Int8) : IsInteger (.byte i) .byte i.toInt
  | char (i : UInt16) : IsInteger (.char i) .char i.toNat
  | short (i : Int16) : IsInteger (.short i) .short i.toInt
  | int (i : Int32) : IsInteger (.int i) .int i.toInt
  | long (i : Int64) : IsInteger (.long i) .long i.toInt

namespace NumericForm

variable {target : NumericForm} {l : Layout} {n : NativeValue} {i k : Int}

def layout? : NumericForm → Option Layout
  | byte => some .byte
  | char => some .char
  | short => some .short
  | int => some .int
  | long => some .long
  | float => none
  | double => none

/-- The integer also fits a type that counts as narrower. -/
def FitsNarrower : NumericForm → Int → Prop
  | char, i => Layout.byte.Holds i
  | short, i => Layout.byte.Holds i
  | int, i => Layout.byte.Holds i ∨ Layout.char.Holds i ∨ Layout.short.Holds i
  | _, _ => False

theorem holds_iff (hl : target.layout? = some l) : target.holds i ↔ l.Holds i := by
  cases target <;> cases hl
  all_goals
    simp only [holds, range?, Layout.Holds, Layout.byte, Layout.char, Layout.short, Layout.int,
      Layout.long, Bool.and_eq_true, decide_eq_true_eq, if_true, Bool.false_eq_true, if_false,
      Nat.reduceSub]
    omega

theorem any_narrower_iff : target.narrower.any (·.holds i) ↔ target.FitsNarrower i := by
  have hbyte : byte.holds i ↔ Layout.byte.Holds i := holds_iff rfl
  have hchar : char.holds i ↔ Layout.char.Holds i := holds_iff rfl
  have hshort : short.holds i ↔ Layout.short.Holds i := holds_iff rfl
  cases target
  all_goals
    simp only [narrower, FitsNarrower, List.any_cons, List.any_nil, Bool.or_false, Bool.or_eq_true,
      Bool.false_eq_true, hbyte, hchar, hshort]

/-! ## Deliveries -/

theorem holds_of_isInteger (hl : target.layout? = some l) (h : n.IsInteger target i) :
    l.Holds i := by
  cases h <;> cases hl
  case byte i => exact ⟨i.le_toInt, i.toInt_lt⟩
  case char i => exact ⟨Int.natCast_nonneg _, by exact_mod_cast i.toNat_lt⟩
  case short i => exact ⟨i.le_toInt, i.toInt_lt⟩
  case int i => exact ⟨i.le_toInt, i.toInt_lt⟩
  case long i => exact ⟨i.le_toInt, i.toInt_lt⟩

/-- Two integers of a type differ in their lowest bits. -/
theorem eq_of_modEq (hl : target.layout? = some l) (hk : l.Holds k) (hi : l.Holds i)
    (h : k ≡ i [ZMOD 2 ^ l.width]) : k = i := by
  unfold Int.ModEq at h
  cases target <;> cases hl
  all_goals
    simp only [Layout.Holds, Layout.byte, Layout.char, Layout.short, Layout.int, Layout.long,
      if_true, Bool.false_eq_true, if_false, Nat.reduceSub] at hk hi h
    omega

theorem toNat_toUInt64_modEq (i : Int64) :
    (i.toUInt64.toNat : Int) ≡ i.toInt [ZMOD 2 ^ 64] := by
  have h := toInt_toInt64 i.toUInt64
  rw [Int64.toInt64_toUInt64] at h
  rw [h]
  exact Int.bmod_emod.symm

/-- **Deliveries.** An integral type delivers the one of its integers that has the lowest bits of
the integer part. -/
theorem exists_isInteger_deliver (hl : target.layout? = some l) (m : Number) :
    ∃ k, (target.deliver m).IsInteger target k ∧ k ≡ m.toInt64.toInt [ZMOD 2 ^ l.width] := by
  cases target <;> cases hl
  case byte =>
    exact ⟨_, .byte _, by rw [Int64.toInt_toInt8]; exact Int.bmod_emod⟩
  case char =>
    refine ⟨_, .char _, ?_⟩
    rw [UInt64.toNat_toUInt16, Int.natCast_mod]
    exact (Int.mod_modEq _ _).trans ((toNat_toUInt64_modEq _).of_mul_right (2 ^ 48))
  case short =>
    exact ⟨_, .short _, by rw [Int64.toInt_toInt16]; exact Int.bmod_emod⟩
  case int =>
    exact ⟨_, .int _, by rw [Int64.toInt_toInt32]; exact Int.bmod_emod⟩
  case long => exact ⟨_, .long _, .rfl⟩

/-! ## Scores -/

/-- What an integer should cost for an integral type: nothing if no narrower type has it, one if
there is such a type or if the type is the widest one, and the cost of a loss if the type does not
have it. -/
structure IntegerCost (target : NumericForm) (l : Layout) (i : Int) (cost : Nat) : Prop where
  lt_iff : cost < 0x100 ↔ l.Holds i
  fits : l.Holds i → target ≠ .long → ¬ target.FitsNarrower i → cost = 0
  wide : l.Holds i → target = .long ∨ target.FitsNarrower i → cost = 1
  outside : ¬ l.Holds i → cost = 0x100

theorem cost_outside (hl : target.layout? = some l) {i : Int64} (hi : ¬ l.Holds i.toInt) :
    (target.integerScore i).cost = 0x100 := by
  have hno := Bool.eq_false_iff.mpr (mt (holds_iff hl).mp hi)
  cases target <;> cases hl
  case long => exact absurd ⟨i.le_toInt, i.toInt_lt⟩ hi
  all_goals exact cost_of_not_holds rfl hno

theorem cost_of_holds (hl : target.layout? = some l) (hlong : target ≠ .long) {i : Int64}
    (hi : l.Holds i.toInt) :
    (target.integerScore i).cost = if target.narrower.any (·.holds i.toInt) then 1 else 0 := by
  have hyes := (holds_iff hl).mpr hi
  cases target <;> cases hl
  case long => exact absurd rfl hlong
  all_goals
    simp only [integerScore, hyes, if_true]
    split <;> rfl

theorem integerCost (hl : target.layout? = some l) (i : Int64) :
    target.IntegerCost l i.toInt (target.integerScore i).cost := by
  have fits : l.Holds i.toInt → target ≠ .long → ¬ target.FitsNarrower i.toInt →
      (target.integerScore i).cost = 0 := fun hi hlong hn => by
    rw [cost_of_holds hl hlong hi, if_neg (mt any_narrower_iff.mp hn)]
  have wide : l.Holds i.toInt → target = .long ∨ target.FitsNarrower i.toInt →
      (target.integerScore i).cost = 1 := fun hi hn => by
    by_cases hlong : target = .long
    · subst hlong
      rfl
    · rw [cost_of_holds hl hlong hi, if_pos (any_narrower_iff.mpr (hn.resolve_left hlong))]
  refine ⟨?_, fits, wide, cost_outside hl⟩
  by_cases hi : l.Holds i.toInt
  · refine iff_of_true ?_ hi
    by_cases hn : target = .long ∨ target.FitsNarrower i.toInt
    · rw [wide hi hn]
      decide
    · rw [fits hi (fun h => hn (.inl h)) (fun h => hn (.inr h))]
      decide
  · refine iff_of_false ?_ hi
    rw [cost_outside hl hi]
    decide

end NumericForm

/-! ## Exact deliveries -/

namespace Host

/-- **Integers.** An integer of 64 bits, or a text that reads as it, is delivered to every integral
type as the integer of that type with the same lowest bits. That is the integer itself just if the
type has it, and just then the cost, less that of the reading, is below the cost of a loss. -/
theorem Reachable.integer_exact {h : Host} (hr : h.Reachable) {p : Primitive} {target : NumericForm}
    {l : Layout} (hp : NumericForm.ofPrimitive? p = some target) (hl : target.layout? = some l)
    {t : TypeId} (ht : t = Builtin.primitive p ∨ t = Builtin.wrapper p) {i : Int64}
    {v : ScriptValue} {penalty : Nat} (hv : v.Gives (.integer i) penalty) :
    (∃ n k, (h.convert t v).1 = .ok n ∧ n.IsInteger target k ∧ k ≡ i.toInt [ZMOD 2 ^ l.width] ∧
      (k = i.toInt ↔ l.Holds i.toInt)) ∧
    ∃ cost, (h.score t v).1.cost = cost + penalty ∧ target.IntegerCost l i.toInt cost := by
  obtain ⟨hconvert, hcost⟩ := hr.numeric_of_gives hp ht hv
  obtain ⟨k, hn, hk⟩ := NumericForm.exists_isInteger_deliver hl (.integer i)
  have hheld := NumericForm.holds_of_isInteger hl hn
  refine ⟨⟨_, k, hconvert, hn, hk, ?_⟩, _, hcost, NumericForm.integerCost hl i⟩
  exact ⟨fun heq => heq ▸ hheld, fun hi => NumericForm.eq_of_modEq hl hheld hi hk⟩

/-- The digits of 40000, which a short does not have. -/
theorem integer_exact_wrapped :
    let digits := (Value.text [0x34, 0x30, 0x30, 0x30, 0x30]).script .initial 1
    initial.Reachable ∧ digits.Gives (.integer 40000) 4 ∧ ¬ Layout.short.Holds 40000 ∧
      (initial.convert (Builtin.wrapper .short) digits).1 = .ok (.short (-25536)) ∧
      (initial.score (Builtin.wrapper .short) digits).1.cost = 260 := by
  intro digits
  have hread : Number.ofBytes? [0x34, 0x30, 0x30, 0x30, 0x30] = some (.integer 40000) := by
    decide +kernel
  have hv : digits.Gives (.integer 40000) 4 := Value.gives_text hread _ _
  have hout : ¬ Layout.short.Holds 40000 := by decide
  obtain ⟨⟨n, k, hn, hk, hmod, -⟩, cost, hscore, hcost⟩ :=
    Reachable.initial.integer_exact (p := .short) rfl rfl (.inr rfl) hv
  refine ⟨.initial, hv, hout, ?_, by rw [hscore, hcost.outside hout]⟩
  cases hk with
  | short i =>
    have hlow := i.le_toInt
    have hhigh := i.toInt_lt
    have hi : i.toInt = -25536 := by
      change i.toInt % 65536 = 40000 % 65536 at hmod
      omega
    rw [hn, Int16.toInt_inj.mp (hi.trans (show -25536 = (-25536 : Int16).toInt by decide))]

end Host

end Interop
