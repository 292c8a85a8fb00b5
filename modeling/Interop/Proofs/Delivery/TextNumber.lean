import Interop.Proofs.Delivery.Convert
import Interop.Proofs.Host.Run
import Interop.Proofs.Number.RoundTrip

/-!
# Numbers and their written forms

A text that reads as a number is delivered to a numeric type like that number, at a fixed penalty.
The written form of a number is therefore delivered like the number itself, unless it reads as
another one: a double from `10 ^ 16` on may be written like an integer.

* `ScriptValue.Gives`: a number, or a text that reads as it. `Host.Reachable.numeric_of_gives`: what
  it becomes, and what it costs.
* `Host.Reachable.written_number`: the written form of a number against the number.
-/

namespace Interop

/-- The plain value of a number. -/
def Value.ofNumber : Number → Value
  | .integer i => .integer i
  | .float x => .float x

namespace NumericForm

variable {target : NumericForm} {i : Int64}

/-- The integral types of less than 64 bits. -/
def isNarrow (target : NumericForm) : Bool :=
  target matches .byte | .char | .short | .int

theorem cost_le (target : NumericForm) (n : Number) : (target.score n).cost ≤ 0x100 := by
  cases n with
  | integer i =>
    rw [score]
    unfold integerScore
    split
    any_goals decide
    split
    · split <;> decide
    · decide
  | float x =>
    rw [score]
    unfold floatScore
    split
    any_goals split
    all_goals decide

theorem isNarrow_iff : target.isNarrow ↔
    target = .byte ∨ target = .char ∨ target = .short ∨ target = .int := by
  cases target <;> decide

theorem not_holds (ht : target.isNarrow) (hi : 2 ^ 31 < i.toInt.natAbs) :
    target.holds i.toInt = false := by
  rcases isNarrow_iff.mp ht with rfl | rfl | rfl | rfl
  all_goals
    simp only [holds, range?, Bool.and_eq_false_iff, decide_eq_false_iff_not]
    omega

theorem cost_of_not_holds (ht : target.isNarrow) (hi : target.holds i.toInt = false) :
    (target.integerScore i).cost = 0x100 := by
  rcases isNarrow_iff.mp ht with rfl | rfl | rfl | rfl
  all_goals
    simp only [integerScore, hi, Bool.false_eq_true, if_false]
    rfl

theorem cost_integer_narrow (ht : target.isNarrow) (hi : 2 ^ 31 < i.toInt.natAbs) :
    (target.integerScore i).cost = 0x100 :=
  cost_of_not_holds ht (not_holds ht hi)

theorem cost_float_narrow (ht : target.isNarrow) (x : Double) :
    (target.floatScore x).cost = 0x100 := by
  rcases isNarrow_iff.mp ht with rfl | rfl | rfl | rfl <;> rfl

/-- An integer of this size and a double cost the same for a narrow type, and for no other. -/
theorem cost_integer_eq_float_iff (hi : 2 ^ 31 < i.toInt.natAbs) (x : Double) :
    (target.integerScore i).cost = (target.floatScore x).cost ↔ target.isNarrow := by
  constructor
  · intro h
    cases target
    · rfl
    · rfl
    · rfl
    · rfl
    all_goals
      exfalso
      revert h
      simp only [integerScore, floatScore]
      split <;> decide
  · intro ht
    rw [cost_integer_narrow ht hi, cost_float_narrow ht]

/-- The floating types take a number as the double that it is. -/
theorem deliver_eq_of_toDouble {n m : Number} (ht : target = .float ∨ target = .double)
    (h : n.toDouble = m.toDouble) : target.deliver n = target.deliver m := by
  rcases ht with rfl | rfl <;> rw [deliver, deliver, h]

end NumericForm

/-! ## Numbers and texts that read as numbers -/

/-- `v` is the number `n`, or a text that reads as it. `penalty` is what the reading costs. -/
inductive ScriptValue.Gives (v : ScriptValue) (n : Number) : (penalty : Nat) → Prop
  | number (hk : v.kind = .number) (hn : v.number? = some n) : Gives v n 0
  | text (hk : v.kind = .text) (hn : v.number? = some n) : Gives v n 4

theorem Value.gives_ofNumber (n : Number) (g : TypeGraph) (a : Nat) :
    ((ofNumber n).script g a).Gives n 0 := by
  cases n <;> exact .number rfl rfl

theorem Value.gives_text {bytes : List UInt8} {n : Number} (h : Number.ofBytes? bytes = some n)
    (g : TypeGraph) (a : Nat) : ((text bytes).script g a).Gives n 4 :=
  .text rfl h

namespace Strategy

variable {g g' : TypeGraph} {target : NumericForm} {n : Number} {bytes : List UInt8} {a : Nat}
  {v : ScriptValue} {penalty : Nat}

theorem score_number (target : NumericForm) (n : Number) :
    (numeric target).score g ((Value.ofNumber n).script g' a) = target.score n := by
  cases n <;> rfl

/-- What gives a number costs what the number costs, and the penalty. -/
theorem cost_of_gives (target : NumericForm) (hv : v.Gives n penalty) :
    ((numeric target).score g v).cost = (target.score n).cost + penalty := by
  cases hv with
  | number hk hn =>
    have hscore : (numeric target).score g v = target.score n := by
      rw [score, numericScore, hk, hn]
    rw [hscore, Nat.add_zero]
  | text hk hn =>
    have hscore : (numeric target).score g v =
        target.score n + .ofCost Score.readingPenalty := by
      rw [score, numericScore, hk, hn]
    have hle := target.cost_le n
    rw [hscore, Score.cost_add, Score.cost_ofCost, Score.readingPenalty, unreachable]
    omega

/-- What gives a number becomes what the number becomes. -/
theorem convert_of_gives (target : NumericForm) (hv : v.Gives n penalty) :
    (numeric target).convert g v = .ok (target.deliver n) := by
  have hn : v.number? = some n ∧ penalty ≤ 4 := by cases hv <;> simp [*]
  have hc : ((numeric target).score g v).isCoercible = true := by
    have hle := target.cost_le n
    rw [Score.isCoercible_iff, cost_of_gives target hv, unreachable]
    omega
  obtain ⟨m, -, hm, hok⟩ := convert_numeric hc
  rw [hn.1] at hm
  cases hm
  exact hok

/-- A text that reads as a number costs what the number costs, and the penalty. -/
theorem cost_reading (target : NumericForm) (h : Number.ofBytes? bytes = some n) :
    ((numeric target).score g ((Value.text bytes).script g' a)).cost =
      (target.score n).cost + Score.readingPenalty :=
  cost_of_gives target (Value.gives_text h g' a)

theorem convert_number (target : NumericForm) (n : Number) :
    (numeric target).convert g ((Value.ofNumber n).script g' a) = .ok (target.deliver n) :=
  convert_of_gives target (Value.gives_ofNumber n g' a)

/-- A text that reads as a number becomes what the number becomes. -/
theorem convert_reading (target : NumericForm) (h : Number.ofBytes? bytes = some n) :
    (numeric target).convert g ((Value.text bytes).script g' a) = .ok (target.deliver n) :=
  convert_of_gives target (Value.gives_text h g' a)

end Strategy

/-- The numeric primitives and their wrappers share one strategy. -/
theorem TypeGraph.strategy_numeric {g : TypeGraph} {p : Primitive} {target : NumericForm}
    {t : TypeId} (hp : NumericForm.ofPrimitive? p = some target)
    (ht : t = Builtin.primitive p ∨ t = Builtin.wrapper p) : g.strategy t = .numeric target := by
  apply strategy_of_known
  rcases ht with rfl | rfl <;> cases p <;> cases hp <;> rfl

/-- A numeric type takes what gives a number like that number, at the cost of the reading. -/
theorem Host.Reachable.numeric_of_gives {h : Host} (hr : h.Reachable) {p : Primitive}
    {target : NumericForm} (hp : NumericForm.ofPrimitive? p = some target) {t : TypeId}
    (ht : t = Builtin.primitive p ∨ t = Builtin.wrapper p) {v : ScriptValue} {n : Number}
    {penalty : Nat} (hv : v.Gives n penalty) :
    (h.convert t v).1 = .ok (target.deliver n) ∧
      (h.score t v).1.cost = (target.score n).cost + penalty := by
  have hs := TypeGraph.strategy_numeric (g := h.types) hp ht
  rw [hr.convert_fst, hr.score_fst, TypeGraph.convert, TypeGraph.score, hs]
  exact ⟨Strategy.convert_of_gives target hv, Strategy.cost_of_gives target hv⟩

/-- **Written numbers.** The written form of a finite number costs four more than the number and
becomes the same native value, unless the number is a double that is written like an integer of 64
bits. Then it is scored and converted like that integer. That is four more than the double for the
narrow types alone, and the native value of the double for the floating types. -/
theorem Host.Reachable.written_number {h : Host} (hr : h.Reachable) {n : Number}
    (hn : n.isFinite) {p : Primitive} {target : NumericForm}
    (hp : NumericForm.ofPrimitive? p = some target) {t : TypeId}
    (ht : t = Builtin.primitive p ∨ t = Builtin.wrapper p) (a b : Nat) :
    let written := (Value.text n.bytes).script h.types a
    let number := (Value.ofNumber n).script h.types b
    (h.convert t number).1 = .ok (target.deliver n) ∧
    ((∀ i, ¬ n.WrittenLike i) →
      (h.score t written).1.cost = (h.score t number).1.cost + 4 ∧
      (h.convert t written).1 = .ok (target.deliver n)) ∧
    ∀ i, n.WrittenLike i →
      (∃ x, n = .float x ∧ plainFrom ≤ x.absValue) ∧
      (h.score t written).1.cost = (target.integerScore i).cost + 4 ∧
      ((h.score t written).1.cost = (h.score t number).1.cost + 4 ↔ target.isNarrow) ∧
      (h.convert t written).1 = .ok (target.deliver (.integer i)) ∧
      (target = .float ∨ target = .double → target.deliver (.integer i) = target.deliver n) := by
  have hs := TypeGraph.strategy_numeric (g := h.types) hp ht
  simp only [hr.score_fst, hr.convert_fst, TypeGraph.score, TypeGraph.convert, hs,
    Strategy.score_number, Strategy.convert_number, true_and]
  constructor
  · intro hno
    have hread := Number.ofBytes?_self hn hno
    exact ⟨Strategy.cost_reading target hread, Strategy.convert_reading target hread⟩
  · intro i hi
    have hread := hi.ofBytes?
    obtain ⟨x, rfl, hlarge, hvalue, hsize⟩ := hi.exists_double hn
    have hcost : ((Strategy.numeric target).score h.types
        ((Value.text (Number.float x).bytes).script h.types a)).cost =
        (target.integerScore i).cost + Score.readingPenalty := Strategy.cost_reading target hread
    refine ⟨⟨x, rfl, hlarge⟩, hcost, ?_, Strategy.convert_reading target hread,
      fun hfloating => NumericForm.deliver_eq_of_toDouble hfloating hvalue⟩
    have habs : 2 ^ 31 < i.toInt.natAbs := by
      rw [plainFrom] at hlarge
      have hbound : (10000000000000000 : Rat) ≤ 2 * i.toInt.natAbs := hlarge.trans hsize
      norm_cast at hbound
      omega
    rw [hcost, Score.readingPenalty, Nat.add_right_cancel_iff]
    exact NumericForm.cost_integer_eq_float_iff habs x

/-- The double `2 ^ 60 = 1152921504606846976` is written like an integer that rounds to it. -/
theorem Number.writtenLike_twoPower60 :
    (Number.float twoPower60).WrittenLike 1152921504606847000 := by
  constructor <;> decide +kernel

/-- The written form of `2 ^ 60` is neither scored nor converted like the number. -/
theorem Host.written_twoPower60_ne :
    Host.initial.Reachable ∧ (Number.float twoPower60).isFinite = true ∧
      (Host.initial.score (Builtin.primitive .long)
        ((Value.text (Number.float twoPower60).bytes).script .initial 1)).1.cost ≠
      (Host.initial.score (Builtin.primitive .long)
        ((Value.ofNumber (.float twoPower60)).script .initial 2)).1.cost + 4 ∧
      (Host.initial.convert (Builtin.primitive .long)
        ((Value.text (Number.float twoPower60).bytes).script .initial 1)).1 ≠
      (Host.initial.convert (Builtin.primitive .long)
        ((Value.ofNumber (.float twoPower60)).script .initial 2)).1 := by
  have hr : Host.initial.Reachable := .initial
  have hs : Host.initial.types.strategy (Builtin.primitive .long) = .numeric .long :=
    TypeGraph.strategy_numeric rfl (.inl rfl)
  have hread := Number.writtenLike_twoPower60.ofBytes?
  refine ⟨hr, by decide, ?_, ?_⟩
  · rw [hr.score_fst, hr.score_fst, TypeGraph.score, TypeGraph.score, hs,
      Strategy.cost_reading _ hread, Strategy.score_number]
    decide +kernel
  · rw [hr.convert_fst, hr.convert_fst, TypeGraph.convert, TypeGraph.convert, hs,
      Strategy.convert_reading _ hread, Strategy.convert_number]
    have hne : (1152921504606847000 : Int64) ≠ twoPower60.toInt64 := by decide +kernel
    simpa [NumericForm.deliver, Number.toInt64] using hne

theorem Host.written_number_twoPower60 :
    Host.initial.Reachable ∧ (Number.float twoPower60).WrittenLike 1152921504606847000 ∧
      (∀ i, ¬ (Number.integer 42).WrittenLike i) ∧
      (Host.initial.score (Builtin.wrapper .long)
        ((Value.text (Number.float twoPower60).bytes).script .initial 1)).1.cost = 5 ∧
      (Host.initial.convert (Builtin.wrapper .long)
        ((Value.text (Number.float twoPower60).bytes).script .initial 1)).1 =
          .ok (.long 1152921504606847000) ∧
      (Host.initial.convert (Builtin.wrapper .long)
        ((Value.ofNumber (.float twoPower60)).script .initial 2)).1 =
          .ok (.long 1152921504606846976) ∧
      (Host.initial.convert (Builtin.primitive .short)
        ((Value.text (Number.integer 42).bytes).script .initial 1)).1 = .ok (.short 42) := by
  have hlong := Host.Reachable.initial.written_number (n := .float twoPower60) (by decide)
    (p := .long) rfl (.inr rfl) 1 2
  have hshort := Host.Reachable.initial.written_number (n := .integer 42) rfl (p := .short) rfl
    (.inl rfl) 1 2
  have hlike := Number.writtenLike_twoPower60
  have hunlike : ∀ i, ¬ (Number.integer 42).WrittenLike i := fun i h => nomatch h.1
  obtain ⟨-, hcost, -, hconvert, -⟩ := hlong.2.2 _ hlike
  have htruncated : twoPower60.toInt64 = 1152921504606846976 := by decide +kernel
  refine ⟨.initial, hlike, hunlike, hcost, hconvert, hlong.1.trans ?_, (hshort.2.1 hunlike).2⟩
  rw [NumericForm.deliver, Number.toInt64, htruncated]

end Interop
