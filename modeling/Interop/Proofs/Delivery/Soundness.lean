import Interop.Proofs.Delivery.Convert
import Interop.Proofs.Host.Run

/-!
# Conversions give values of the type

What a conversion gives is a value of the type that was asked for, at every depth of an array.

* `TypeGraph.Inhabits`: a native value is of a type, as the delivery of a script value.
* `TypeGraph.WellFormed.inhabits`: conversions give values of the type.
* `Strategy.eq_null_iff`: a plain value becomes null only if it is nil.
* `Host.Reachable.convert_sound`: both of them for a host, whatever it has done before.
-/

namespace Interop

/-! ## Values of a type -/

namespace NativeValue

/-- The primitive whose values a native value is among. -/
def primitive? : NativeValue → Option Primitive
  | boolean _ => some .boolean
  | byte _ => some .byte
  | char _ => some .char
  | short _ => some .short
  | int _ => some .int
  | long _ => some .long
  | float _ => some .float
  | double _ => some .double
  | _ => none

/-- The class of a native value that stands for a script number, boolean or text where a class or
an interface is expected. -/
def boxedType? : NativeValue → Option TypeId
  | boolean _ => some (Builtin.wrapper .boolean)
  | int _ => some (Builtin.wrapper .int)
  | long _ => some (Builtin.wrapper .long)
  | double _ => some (Builtin.wrapper .double)
  | text _ => some Builtin.text
  | _ => none

end NativeValue

namespace TypeGraph

/-- A class or an interface that is neither a wrapper nor the class of texts. -/
structure IsReference (g : TypeGraph) (t : TypeId) : Prop where
  no_primitive : Builtin.carried? t = none
  no_text : t ≠ Builtin.text
  no_bytes : t ≠ Builtin.bytes
  no_array : g.element? t = none

/-- `n` is a value of the type `t`, as a delivery of `v`.

A primitive type and its wrapper only have the values of that primitive; every other type has
null. An array type that is not the array of bytes has the arrays over its element type whose items
are deliveries of the elements of `v`, and the objects whose type is an array type over elements
that its own element type admits. Every other class and interface has the boxed values and the
objects whose type it admits, and `v` as it is if it admits the type that stands for `v`. -/
inductive Inhabits (g : TypeGraph) : TypeId → ScriptValue → NativeValue → Prop
  | primitive {t : TypeId} {v : ScriptValue} {n : NativeValue} {p : Primitive}
      (ht : Builtin.carried? t = some p) (hn : n.primitive? = some p) : Inhabits g t v n
  | null {t : TypeId} {v : ScriptValue} (ht : Builtin.carried? t = none) : Inhabits g t v .null
  | text {v : ScriptValue} (s : String) : Inhabits g Builtin.text v (.text s)
  | bytes {v : ScriptValue} (b : List UInt8) : Inhabits g Builtin.bytes v (.bytes b)
  | array {t e : TypeId} {v : ScriptValue} {items : List NativeValue}
      (ht : t ≠ Builtin.bytes) (he : g.element? t = some e)
      (hi : ∀ k item, items[k]? = some item → Inhabits g e (v.index (k + 1)) item) :
      Inhabits g t v (.array e items)
  | arrayObject {t e u : TypeId} {v : ScriptValue} {o : NativeObject}
      (ht : t ≠ Builtin.bytes) (he : g.element? t = some e) (ho : g.element? o.type = some u)
      (ha : g.admits e u = true) : Inhabits g t v (.object o)
  | boxed {t u : TypeId} {v : ScriptValue} {n : NativeValue} (ht : g.IsReference t)
      (hn : n.boxedType? = some u) (ha : g.admits t u = true) : Inhabits g t v n
  | object {t : TypeId} {v : ScriptValue} {o : NativeObject} (ht : g.IsReference t)
      (ha : g.admits t o.type = true) : Inhabits g t v (.object o)
  | script {t : TypeId} {v : ScriptValue} (ht : g.IsReference t)
      (ha : g.admits t v.representation = true) : Inhabits g t v (.script v)

end TypeGraph

/-! ## The known types -/

theorem NumericForm.primitive?_deliver {p : Primitive} {target : NumericForm}
    (h : NumericForm.ofPrimitive? p = some target) (m : Number) :
    (target.deliver m).primitive? = some p := by
  cases p <;> cases h <;> rfl

namespace Strategy

variable {g : TypeGraph} {t : TypeId} {v : ScriptValue} {n : NativeValue} {s : Strategy}

theorem known?_eq_none_iff :
    known? t = none ↔ Builtin.carried? t = none ∧ t ≠ Builtin.text ∧ t ≠ Builtin.bytes := by
  unfold known?
  cases Builtin.carried? t with
  | some p => simp
  | none => simp [ite_eq_iff]

/-- The fixed strategies of the known types, one for each kind of them. -/
theorem known?_cases (h : known? t = some s) :
    (Builtin.carried? t = some .boolean ∧ s = boolean) ∨
      (∃ p target, Builtin.carried? t = some p ∧ NumericForm.ofPrimitive? p = some target ∧
        s = numeric target) ∨
      (t = Builtin.text ∧ s = text .text) ∨ t = Builtin.bytes ∧ s = text .bytes := by
  unfold known? at h
  split at h
  · rename_i p hp
    cases hf : NumericForm.ofPrimitive? p with
    | some target =>
      rw [hf] at h
      cases h
      exact .inr (.inl ⟨p, target, hp, hf, rfl⟩)
    | none =>
      rw [hf] at h
      cases h
      cases p <;> cases hf
      exact .inl ⟨hp, rfl⟩
  · split at h
    · cases h
      exact .inr (.inr (.inl ⟨‹_›, rfl⟩))
    · split at h <;> cases h
      exact .inr (.inr (.inr ⟨‹_›, rfl⟩))

/-- The fixed strategies give values of their types. -/
theorem inhabits_of_known (h : known? t = some s) (ok : s.convert g v = .ok n) :
    g.Inhabits t v n := by
  have hc := coercible_of_ok ok
  rcases known?_cases h with ⟨ht, rfl⟩ | ⟨p, target, ht, hf, rfl⟩ | ⟨rfl, rfl⟩ | ⟨rfl, rfl⟩
  · rw [convert_boolean] at ok
    cases ok
    exact .primitive ht rfl
  · obtain ⟨m, -, -, hconv⟩ := convert_numeric hc
    rw [hconv] at ok
    cases ok
    exact .primitive ht (NumericForm.primitive?_deliver hf m)
  · rw [convert_text] at ok
    cases ok
    split
    · exact .null (by decide)
    · exact .text _
  · rw [(convert_bytes hc).2] at ok
    split at ok
    · cases ok
      exact .null (by decide)
    · split at ok <;> cases ok
      exact .bytes _

/-! ## Arrays -/

/-- An array strategy gives values of an array type if the strategy of the elements gives values of
the element type. -/
theorem inhabits_of_array {e : TypeId} (ht : Builtin.carried? t = none) (hb : t ≠ Builtin.bytes)
    (he : g.element? t = some e)
    (elements : ∀ {v n}, s.convert g v = .ok n → g.Inhabits e v n)
    (ok : (array e s).convert g v = .ok n) : g.Inhabits t v n := by
  have hc := coercible_of_ok ok
  by_cases hk : v.kind = .table
  · rw [convert_table hk hc] at ok
    obtain ⟨-, items, rfl, -, hall⟩ := tableValue_eq_ok_iff.mp ok
    exact .array hb he fun k item hitem => elements (hall k item hitem)
  · rcases convert_array hk hc with ⟨-, hconv⟩ | ⟨o, u, -, -, hu, hadm, hconv⟩
    · rw [hconv] at ok
      cases ok
      exact .null ht
    · rw [hconv] at ok
      cases ok
      exact .arrayObject hb he hu hadm

/-! ## Classes and interfaces -/

/-- What a value is delivered as by nature has the very type that its score has been found for. -/
theorem inhabits_objectValue {u : TypeId} (ht : g.IsReference t) (hu : naturalType? v = some u)
    (hadm : g.admits t u = true) : g.Inhabits t v (objectValue v) := by
  unfold naturalType? at hu
  unfold objectValue
  cases hk : v.kind with
  | number =>
    cases hm : v.number? with
    | none => exact .null ht.no_primitive
    | some m =>
      cases m with
      | integer i =>
        simp only [hk, hm] at hu
        cases hu
        by_cases hi : NumericForm.int.holds i.toInt = true
        · rw [if_pos hi] at hadm
          simp only [hi, if_true]
          exact .boxed ht rfl hadm
        · rw [if_neg hi] at hadm
          simp only [hi]
          exact .boxed ht rfl hadm
      | float x =>
        simp only [hk, hm] at hu
        cases hu
        exact .boxed ht rfl hadm
  | boolean | text =>
    simp only [hk] at hu
    cases hu
    exact .boxed ht rfl hadm
  | userdata =>
    simp only [hk] at hu
    obtain ⟨o, ho, rfl⟩ := Option.map_eq_some_iff.mp hu
    simp only [unwrap, ho]
    exact .object ht hadm
  | nil => exact .null ht.no_primitive
  | table | function | thread =>
    simp only [hk] at hu
    cases hu
    exact .script ht hadm

/-- Delivery by inheritance gives values of the type. -/
theorem inhabits_of_object (ht : g.IsReference t) (ok : (object t).convert g v = .ok n) :
    g.Inhabits t v n := by
  obtain ⟨hnat, hconv⟩ := convert_object (coercible_of_ok ok)
  rw [hconv] at ok
  cases ok
  rcases hnat with hk | ⟨u, hu, hadm⟩
  · rw [objectValue, hk]
    exact .null ht.no_primitive
  · exact inhabits_objectValue ht hu hadm

end Strategy

/-- **Soundness.** What a conversion gives is a value of the type. -/
theorem TypeGraph.WellFormed.inhabits {g : TypeGraph} (hg : g.WellFormed) {t : TypeId}
    {v : ScriptValue} {n : NativeValue} (ok : g.convert t v = .ok n) : g.Inhabits t v n := by
  unfold TypeGraph.convert at ok
  -- along the element types, as the strategy of a type is found
  induction t using TypeGraph.strategy.induct g generalizing v n with
  | case1 t s hk =>
    rw [strategy_of_known hk] at ok
    exact Strategy.inhabits_of_known hk ok
  | case2 t hk e he older ih =>
    rw [strategy_of_element hk he older] at ok
    obtain ⟨ht, -, hb⟩ := Strategy.known?_eq_none_iff.mp hk
    exact Strategy.inhabits_of_array ht hb he ih ok
  | case3 t hk e he young => exact absurd (hg.element_older t e he) young
  | case4 t hk he =>
    rw [strategy_of_no_element hk he] at ok
    obtain ⟨ht, hx, hb⟩ := Strategy.known?_eq_none_iff.mp hk
    exact Strategy.inhabits_of_object ⟨ht, hx, hb, he⟩ ok

/-! ## Nulls from plain values -/

namespace Value

variable (g : TypeGraph) (handle : Nat) (value : Value)

theorem kind_eq_nil_iff : (value.script g handle).kind = .nil ↔ value = nil := by
  cases value <;> simp [script, kind]

/-- A plain value has no answer of its own to whether it is nil. -/
theorem isNil_script :
    (value.script g handle).isNil = decide ((value.script g handle).kind = .nil) :=
  rfl

/-- By inheritance, a plain value is delivered as null only if it is nil. -/
theorem objectValue_eq_null_iff :
    Strategy.objectValue (value.script g handle) = .null ↔ value = nil := by
  cases value with
  | integer i =>
    simp only [Strategy.objectValue, script, kind, number?]
    split <;> simp
  | _ => simp [Strategy.objectValue, Strategy.unwrap, script, kind, number?, object?]

end Value

/-- A plain value becomes null exactly if it is nil. Only as a boolean, nil is not null. -/
theorem Strategy.eq_null_iff {g g' : TypeGraph} {s : Strategy} {handle : Nat} {value : Value}
    {n : NativeValue} (ok : s.convert g (value.script g' handle) = .ok n) :
    n = .null ↔ value = .nil ∧ s ≠ boolean := by
  have hc := coercible_of_ok ok
  rw [← Value.kind_eq_nil_iff g' handle]
  cases s with
  | boolean =>
    rw [convert_boolean] at ok
    cases ok
    simp
  | numeric target =>
    obtain ⟨m, hk, -, hconv⟩ := convert_numeric hc
    rw [hconv] at ok
    cases ok
    rcases hk with hk | hk <;> cases target <;> simp [NumericForm.deliver, hk]
  | text target =>
    cases target with
    | text =>
      rw [convert_text, Value.isNil_script] at ok
      cases ok
      simp
    | bytes =>
      rw [(convert_bytes hc).2, Value.isNil_script] at ok
      split at ok
      · rename_i hk
        cases ok
        simpa using hk
      · rename_i hk
        split at ok <;> cases ok
        simpa using hk
  | array e elements =>
    by_cases hk : (value.script g' handle).kind = .table
    · rw [convert_table hk hc] at ok
      obtain ⟨-, items, rfl, -⟩ := tableValue_eq_ok_iff.mp ok
      simp [hk]
    · rcases convert_array hk hc with ⟨hk, hconv⟩ | ⟨o, u, hk, -, -, -, hconv⟩
      · rw [hconv] at ok
        cases ok
        simp [hk]
      · rw [hconv] at ok
        cases ok
        simp [hk]
  | object target =>
    obtain ⟨-, hconv⟩ := convert_object hc
    rw [hconv] at ok
    cases ok
    simp [Value.objectValue_eq_null_iff, Value.kind_eq_nil_iff]

/-! ## Hosts -/

theorem TypeGraph.strategy_eq_boolean_iff {g : TypeGraph} {t : TypeId} :
    g.strategy t = .boolean ↔ Builtin.carried? t = some .boolean := by
  constructor
  · intro h
    rw [strategy] at h
    split at h
    · rename_i s hk
      subst h
      rcases Strategy.known?_cases hk with ⟨ht, -⟩ | ⟨_, _, -, -, hs⟩ | ⟨-, hs⟩ | ⟨-, hs⟩
      · exact ht
      all_goals cases hs
    · split at h
      · split at h <;> cases h
      · cases h
  · intro h
    refine strategy_of_known ?_
    rw [Strategy.known?, h]
    rfl

/-- **Soundness for hosts.** What a host makes of a script value is a value of the type that was
asked for, after any run. Null stands for nothing but nil if the value is a plain one, and nil is
delivered as null wherever it is not delivered as a boolean. -/
theorem Host.Reachable.convert_sound {h : Host} (hr : h.Reachable) {t : TypeId} {v : ScriptValue}
    {n : NativeValue} (ok : (h.convert t v).1 = .ok n) :
    h.types.Inhabits t v n ∧
      ∀ g handle value, v = Value.script g handle value →
        (n = .null ↔ value = .nil ∧ Builtin.carried? t ≠ some .boolean) := by
  rw [hr.convert_fst] at ok
  refine ⟨hr.sound.types.inhabits ok, ?_⟩
  rintro g handle value rfl
  rw [Strategy.eq_null_iff ok, Ne, TypeGraph.strategy_eq_boolean_iff]

/-- A table of a number, nil and a function. -/
def mixedTable : ScriptValue :=
  Value.script .initial 4 (.table #[(Value.integer 7).script .initial 1,
    Value.nil.script .initial 2, (Value.function "f").script .initial 3])

/-- The boxed number, null and the function itself. -/
def mixedArray : NativeValue :=
  .array Builtin.object [.int 7, .null, .script ((Value.function "f").script .initial 3)]

theorem Host.convert_sound_mixed :
    (ofArray Builtin.object).Reachable ∧
      ((ofArray Builtin.object).convert ⟨25⟩ mixedTable).1 = .ok mixedArray ∧
      (ofArray Builtin.object).types.Inhabits ⟨25⟩ mixedTable mixedArray := by
  have hr : (ofArray Builtin.object).Reachable := reachable_ofArray (by decide)
  have hs : (ofArray Builtin.object).types.strategy ⟨25⟩ =
      .array Builtin.object (.object Builtin.object) := by
    rw [TypeGraph.strategy_of_element (e := Builtin.object) (by decide) (by decide) (by decide),
      TypeGraph.strategy_of_no_element (by decide) (by decide)]
  have ok : ((ofArray Builtin.object).convert ⟨25⟩ mixedTable).1 = .ok mixedArray := by
    rw [hr.convert_fst, TypeGraph.convert, hs]
    rfl
  exact ⟨hr, ok, (hr.convert_sound ok).1⟩

end Interop
