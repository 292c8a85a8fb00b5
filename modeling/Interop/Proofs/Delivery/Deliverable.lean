import Interop.Proofs.Delivery.Convert
import Interop.Proofs.Host.Run

/-!
# Which conversions succeed

A score samples the first element along a table, a conversion visits all of them. What a conversion
accepts is told apart from what it refuses by the elements alone, and from what it stops at by the
lengths of the tables that it comes to.

* `TypeGraph.Deliverable`: every element of a table is deliverable to the element type, and
  everything else has a coercible score.
* `TypeGraph.Overflows`: the conversion comes to a table that is too long for an array.
* `TypeGraph.convert_isOk_iff`, `TypeGraph.convert_overflow_iff`: a conversion succeeds exactly on
  what is deliverable and does not overflow, and stops exactly on what overflows.
* `TypeGraph.convert_refused_iff`, `TypeGraph.convert_elementRefused`: which of the two errors a
  conversion fails with, and the position that it names.
* `Host.Reachable.convert_agrees`: all of this for a host, whatever it has done before.
* `Host.convert_disagrees`: a value that is nil by its kind and not on its own account, and a table
  that is too long.
-/

namespace Interop

/-! ## The parts of a value -/

namespace ScriptValue

/-- `w` is `v` itself, or a part of an element of the table `v`. -/
inductive Part : ScriptValue → ScriptValue → Prop
  | self (v : ScriptValue) : Part v v
  | element {v w : ScriptValue} {i : Nat} (hk : v.kind = .table) (h1 : 1 ≤ i) (hi : i ≤ v.length)
      (hp : Part (v.index i) w) : Part v w

/-- All texts in a value carry bytes. A runtime of its own might answer otherwise. -/
def CarriesBytes (v : ScriptValue) : Prop :=
  ∀ w, v.Part w → w.kind = .text → ∃ b, w.bytes? = some b

/-- All parts of a value that are of the kind nil say that they are nil, or else carry bytes. A
runtime of its own might answer otherwise here too. -/
def KnowsNil (v : ScriptValue) : Prop :=
  ∀ w, v.Part w → w.kind = .nil → w.isNil = true ∨ ∃ b, w.bytes? = some b

/-- A plain value whose elements are plain. -/
inductive Plain : ScriptValue → Prop
  | script (g : TypeGraph) (handle : Nat) (value : Value)
      (elements : ∀ i x, value.element? i = some x → Plain x) : Plain (value.script g handle)

variable {v w : ScriptValue}

theorem plain_nil : nil.Plain := .script _ _ _ nofun

theorem plain_table {g : TypeGraph} {handle : Nat} {items : Array ScriptValue}
    (h : ∀ x ∈ items, Plain x) : ((Value.table items).script g handle).Plain := by
  refine .script _ _ _ fun i x hx => h x ?_
  simp only [Value.element?] at hx
  split at hx
  · cases hx
  · exact Array.mem_of_getElem? hx

theorem Plain.index (h : v.Plain) (i : Nat) : (v.index i).Plain := by
  cases h with
  | script g handle value elements =>
    unfold ScriptValue.index
    cases hx : (value.script g handle).element? i with
    | none => exact plain_nil
    | some x => exact elements i x hx

/-- The parts of a plain value are plain. -/
theorem Plain.part (h : v.Plain) (hp : v.Part w) : w.Plain := by
  induction hp with
  | self v => exact h
  | element _ _ _ _ ih => exact ih (h.index _)

/-- Plain values carry the bytes of their texts. -/
theorem Plain.carriesBytes (h : v.Plain) : v.CarriesBytes := by
  intro w hp hk
  cases h.part hp with
  | script g handle value _ =>
    cases value <;> cases hk
    exact ⟨_, rfl⟩

/-- Plain values know that they are nil. -/
theorem Plain.knowsNil (h : v.Plain) : v.KnowsNil := by
  intro w hp hk
  cases h.part hp with
  | script g handle value _ => exact .inl (decide_eq_true hk)

theorem CarriesBytes.index (h : v.CarriesBytes) (hk : v.kind = .table) {i : Nat} (h1 : 1 ≤ i)
    (hi : i ≤ v.length) : (v.index i).CarriesBytes :=
  fun w hp => h w (.element hk h1 hi hp)

theorem KnowsNil.index (h : v.KnowsNil) (hk : v.kind = .table) {i : Nat} (h1 : 1 ≤ i)
    (hi : i ≤ v.length) : (v.index i).KnowsNil :=
  fun w hp => h w (.element hk h1 hi hp)

end ScriptValue

/-! ## Deliverable values -/

namespace TypeGraph

/-- `v` can be delivered as the type `t`: a table as an array if all its elements can be delivered
as the element type, and anything else if its score is coercible. -/
inductive Deliverable (g : TypeGraph) : TypeId → ScriptValue → Prop
  | table {t e : TypeId} {s : Strategy} {v : ScriptValue} (hs : g.strategy t = .array e s)
      (hk : v.kind = .table)
      (elements : ∀ i, 1 ≤ i → i ≤ v.length → Deliverable g e (v.index i)) : Deliverable g t v
  | value {t : TypeId} {v : ScriptValue}
      (other : ∀ e s, g.strategy t = .array e s → v.kind ≠ .table)
      (hc : (g.score t v).isCoercible = true) : Deliverable g t v

/-- The conversion of `v` to the type `t` comes to a table that no array has room for. That is `v`
itself, or the conversion of an element comes to it and the elements before can be delivered. -/
inductive Overflows (g : TypeGraph) : TypeId → ScriptValue → Prop
  | table {t e : TypeId} {s : Strategy} {v : ScriptValue} (hs : g.strategy t = .array e s)
      (hk : v.kind = .table) (hc : (g.score t v).isCoercible = true)
      (long : NativeValue.capacity < v.length) : Overflows g t v
  | element {t e : TypeId} {s : Strategy} {v : ScriptValue} {i : Nat}
      (hs : g.strategy t = .array e s) (hk : v.kind = .table)
      (room : v.length ≤ NativeValue.capacity) (h1 : 1 ≤ i) (hi : i ≤ v.length)
      (before : ∀ j, 1 ≤ j → j < i → g.Deliverable e (v.index j))
      (stop : Overflows g e (v.index i)) : Overflows g t v

variable {g : TypeGraph} {t e : TypeId} {s : Strategy} {v : ScriptValue} {n : NativeValue}

theorem deliverable_table_iff (hs : g.strategy t = .array e s) (hk : v.kind = .table) :
    g.Deliverable t v ↔ ∀ i, 1 ≤ i → i ≤ v.length → g.Deliverable e (v.index i) := by
  constructor
  · intro h
    cases h with
    | table hs' _ elements =>
      rw [hs] at hs'
      cases hs'
      exact elements
    | value other _ => exact absurd hk (other e s hs)
  · exact .table hs hk

theorem deliverable_value_iff (other : ∀ e s, g.strategy t = .array e s → v.kind ≠ .table) :
    g.Deliverable t v ↔ (g.score t v).isCoercible = true := by
  constructor
  · intro h
    cases h with
    | table hs hk _ => exact absurd hk (other _ _ hs)
    | value _ hc => exact hc
  · exact .value other

/-- A table is judged by its first element. -/
theorem score_table (hs : g.strategy t = .array e s) (hk : v.kind = .table) :
    g.score t v = if v.length = 0 then .exact else g.score e (v.index 1) := by
  unfold TypeGraph.score
  rw [hs, Strategy.score, hk, elements_eq_strategy hs]

/-- What is deliverable has a coercible score. -/
theorem Deliverable.isCoercible (h : g.Deliverable t v) : (g.score t v).isCoercible = true := by
  induction h with
  | value _ hc => exact hc
  | table hs hk _ ih =>
    rw [score_table hs hk]
    split
    · rfl
    · rename_i hl
      exact ih 1 (Nat.le_refl 1) (Nat.pos_of_ne_zero hl)

/-- What overflows has a coercible score too. -/
theorem Overflows.isCoercible (h : g.Overflows t v) : (g.score t v).isCoercible = true := by
  induction h with
  | table _ _ hc _ => exact hc
  | element hs hk _ h1 hi before _ ih =>
    rw [score_table hs hk, if_neg (by omega)]
    rcases Nat.lt_or_ge 1 _ with hlt | hle
    · exact (before 1 (Nat.le_refl 1) hlt).isCoercible
    · rwa [Nat.le_antisymm hle h1] at ih

/-- Nothing but a table for an array overflows. -/
theorem Overflows.table_of_array (h : g.Overflows t v) :
    ∃ e s, g.strategy t = .array e s ∧ v.kind = .table := by
  cases h with
  | table hs hk _ _ => exact ⟨_, _, hs, hk⟩
  | element hs hk _ _ _ _ _ => exact ⟨_, _, hs, hk⟩

/-- A table that there is room for overflows by one of its elements. -/
theorem overflows_table_iff (hs : g.strategy t = .array e s) (hk : v.kind = .table)
    (hroom : v.length ≤ NativeValue.capacity) :
    g.Overflows t v ↔ ∃ i, 1 ≤ i ∧ i ≤ v.length ∧
      (∀ j, 1 ≤ j → j < i → g.Deliverable e (v.index j)) ∧ g.Overflows e (v.index i) := by
  constructor
  · intro ho
    cases ho with
    | table _ _ _ hlong => exact absurd hlong (Nat.not_lt.mpr hroom)
    | element hs' _ _ h1 hi before stop =>
      rw [hs] at hs'
      cases hs'
      exact ⟨_, h1, hi, before, stop⟩
  · rintro ⟨i, h1, hi, before, stop⟩
    exact .element hs hk hroom h1 hi before stop

end TypeGraph

/-! ## Conversions -/

/-- A coercible value other than a table for an array is converted, if the texts and nils among
these can be made bytes of. -/
theorem Strategy.exists_convert {g : TypeGraph} {s : Strategy} {v : ScriptValue}
    (hb : v.kind = .nil ∨ v.kind = .text → v.isNil = true ∨ ∃ b, v.bytes? = some b)
    (other : ∀ e elements, s = array e elements → v.kind ≠ .table)
    (hc : (s.score g v).isCoercible = true) : ∃ n, s.convert g v = .ok n := by
  cases s with
  | boolean => exact ⟨_, convert_boolean g v⟩
  | numeric target =>
    obtain ⟨m, -, -, hconv⟩ := convert_numeric hc
    exact ⟨_, hconv⟩
  | text target =>
    cases target with
    | text => exact ⟨_, convert_text g v⟩
    | bytes =>
      obtain ⟨hk, hconv⟩ := convert_bytes hc
      rw [hconv]
      split
      · exact ⟨_, rfl⟩
      · rename_i hnil
        obtain ⟨b, hbytes⟩ := (hb hk).resolve_left hnil
        rw [hbytes]
        exact ⟨_, rfl⟩
  | array e elements =>
    rcases convert_array (other e elements rfl) hc with ⟨-, hconv⟩ | ⟨o, _, -, -, -, -, hconv⟩
    · exact ⟨_, hconv⟩
    · exact ⟨_, hconv⟩
  | object target => exact ⟨_, (convert_object hc).2⟩

theorem DeliveryError.ofElement_eq_overflow_iff {i : Nat} {target : String} {d : DeliveryError} :
    d.ofElement i target = .overflow ↔ d = .overflow := by
  cases d <;> simp [ofElement]

theorem DeliveryError.ofElement_of_ne {i : Nat} {target : String} {d : DeliveryError}
    (h : d ≠ .overflow) : d.ofElement i target = .elementRefused i target := by
  cases d with
  | overflow => exact absurd rfl h
  | _ => rfl

namespace TypeGraph

variable {g : TypeGraph} {t e : TypeId} {s : Strategy} {v : ScriptValue} {n : NativeValue}

theorem convert_refused (h : (g.score t v).isCoercible = false) :
    g.convert t v = .error ((g.strategy t).refusal g v) :=
  Strategy.convert_refused h

/-- A table that is not refused by its score is converted element by element. -/
theorem convert_table (hs : g.strategy t = .array e s) (hk : v.kind = .table)
    (hc : (g.score t v).isCoercible = true) :
    g.convert t v = Strategy.tableValue g e (g.convert e) v := by
  unfold TypeGraph.convert TypeGraph.score at *
  rw [← elements_eq_strategy hs]
  rw [hs] at hc ⊢
  exact Strategy.convert_table hk hc

/-- What is not a table for an array is converted exactly if its score is coercible. -/
theorem convert_value_iff (hb : v.CarriesBytes) (hn : v.KnowsNil)
    (other : ∀ e s, g.strategy t = .array e s → v.kind ≠ .table) :
    (∃ n, g.convert t v = .ok n) ↔ (g.score t v).isCoercible = true := by
  constructor
  · rintro ⟨n, ok⟩
    exact Strategy.coercible_of_ok ok
  · refine Strategy.exists_convert ?_ other
    rintro (hk | hk)
    · exact hn v (.self v) hk
    · exact .inr (hb v (.self v) hk)

/-- What can be told of a conversion before: it succeeds just on what is deliverable and does not
overflow, and stops for lack of room just on what overflows. -/
structure Foretold (g : TypeGraph) (t : TypeId) (v : ScriptValue) : Prop where
  ok_iff : (∃ n, g.convert t v = .ok n) ↔ g.Deliverable t v ∧ ¬ g.Overflows t v
  overflow_iff : g.convert t v = .error .overflow ↔ g.Overflows t v

theorem foretold_value (hb : v.CarriesBytes) (hn : v.KnowsNil)
    (other : ∀ e s, g.strategy t = .array e s → v.kind ≠ .table) : g.Foretold t v := by
  have ho : ¬ g.Overflows t v := by
    intro ho
    obtain ⟨e, s, hs, hk⟩ := ho.table_of_array
    exact other e s hs hk
  refine ⟨?_, fun herr => ?_, fun h => absurd h ho⟩
  · rw [deliverable_value_iff other, convert_value_iff hb hn other]
    exact (and_iff_left ho).symm
  · cases hc : (g.score t v).isCoercible with
    | false =>
      rw [convert_refused hc] at herr
      cases herr
    | true =>
      obtain ⟨n, ok⟩ := (convert_value_iff hb hn other).mpr hc
      rw [ok] at herr
      cases herr

theorem foretold_uncoercible (hc : (g.score t v).isCoercible = false) : g.Foretold t v := by
  have hd : ¬ g.Deliverable t v := fun hd => by rw [hd.isCoercible] at hc; cases hc
  have ho : ¬ g.Overflows t v := fun ho => by rw [ho.isCoercible] at hc; cases hc
  constructor <;> simp [convert_refused hc, hd, ho, Strategy.refusal]

/-- The first element that fails is also the first that can overflow. -/
theorem first_overflow_iff {i : Nat} (h1 : 1 ≤ i) (hi : i ≤ v.length)
    (hfails : ¬ (g.Deliverable e (v.index i) ∧ ¬ g.Overflows e (v.index i)))
    (before : ∀ j, 1 ≤ j → j < i →
      g.Deliverable e (v.index j) ∧ ¬ g.Overflows e (v.index j)) :
    (∃ k, 1 ≤ k ∧ k ≤ v.length ∧ (∀ j, 1 ≤ j → j < k → g.Deliverable e (v.index j)) ∧
      g.Overflows e (v.index k)) ↔ g.Overflows e (v.index i) := by
  constructor
  · rintro ⟨k, hk1, hk, hbefore, stop⟩
    rcases Nat.lt_trichotomy k i with hlt | rfl | hgt
    · exact absurd stop (before k hk1 hlt).2
    · exact stop
    · by_contra ho
      exact hfails ⟨hbefore i h1 hgt, ho⟩
  · intro stop
    exact ⟨i, h1, hi, fun j hj hji => (before j hj hji).1, stop⟩

/-- What is foretold of each element is foretold of the table. -/
theorem foretold_table (hs : g.strategy t = .array e s) (hk : v.kind = .table)
    (each : ∀ i, 1 ≤ i → i ≤ v.length → g.Foretold e (v.index i)) : g.Foretold t v := by
  by_cases hc : (g.score t v).isCoercible
  case neg => exact foretold_uncoercible (Bool.eq_false_iff.mpr hc)
  have hconv := convert_table hs hk hc
  rcases Nat.lt_or_ge NativeValue.capacity v.length with hlong | hroom
  · have ho : g.Overflows t v := .table hs hk hc hlong
    constructor <;> simp [hconv, Strategy.tableValue_of_overflow hlong, ho]
  have hdeliverable := deliverable_table_iff hs hk
  have hoverflows := overflows_table_iff hs hk hroom
  cases hv : Strategy.tableValue g e (g.convert e) v with
  | ok n =>
    obtain ⟨-, items, -, hl, hall⟩ := Strategy.tableValue_eq_ok_iff.mp hv
    have hok : ∀ i, 1 ≤ i → i ≤ v.length →
        g.Deliverable e (v.index i) ∧ ¬ g.Overflows e (v.index i) := by
      intro i h1 hi
      refine (each i h1 hi).ok_iff.mp ?_
      have hlt : i - 1 < items.length := by omega
      have hitem := hall (i - 1) _ (List.getElem?_eq_getElem hlt)
      rw [Nat.sub_add_cancel h1] at hitem
      exact ⟨_, hitem⟩
    have hd : g.Deliverable t v := hdeliverable.mpr fun i h1 hi => (hok i h1 hi).1
    have ho : ¬ g.Overflows t v := by
      rw [hoverflows]
      exact fun ⟨i, h1, hi, _, stop⟩ => (hok i h1 hi).2 stop
    constructor <;> simp [hconv, hv, hd, ho]
  | error d =>
    rcases Strategy.tableValue_eq_error_iff.mp hv with
      ⟨hlong, -⟩ | ⟨-, i, d', h1, hi, herr, rfl, hall⟩
    · exact absurd hlong (Nat.not_lt.mpr hroom)
    have before : ∀ j, 1 ≤ j → j < i →
        g.Deliverable e (v.index j) ∧ ¬ g.Overflows e (v.index j) :=
      fun j hj hji => (each j hj (by omega)).ok_iff.mp (hall j hj hji)
    have hfails : ¬ (g.Deliverable e (v.index i) ∧ ¬ g.Overflows e (v.index i)) := by
      rw [← (each i h1 hi).ok_iff, herr]
      rintro ⟨_, ⟨⟩⟩
    rw [first_overflow_iff h1 hi hfails before] at hoverflows
    refine ⟨⟨?_, fun ⟨hd, ho⟩ => ?_⟩, ?_⟩
    · rw [hconv, hv]
      rintro ⟨_, ⟨⟩⟩
    · exact absurd ⟨hdeliverable.mp hd i h1 hi, hoverflows.not.mp ho⟩ hfails
    · rw [hoverflows, ← (each i h1 hi).overflow_iff, hconv, hv, herr, Except.error.injEq,
        Except.error.injEq, DeliveryError.ofElement_eq_overflow_iff]

/-- What a conversion makes of a value, by the parts of the value alone. -/
theorem foretold (hb : v.CarriesBytes) (hn : v.KnowsNil) : g.Foretold t v := by
  -- over the nesting of arrays: the strategy of the elements is the one inside that of the array
  induction hs : g.strategy t generalizing t v with
  | array e s ih =>
    by_cases hk : v.kind = .table
    · exact foretold_table hs hk fun i h1 hi =>
        ih (hb.index hk h1 hi) (hn.index hk h1 hi) (elements_eq_strategy hs).symm
    · exact foretold_value hb hn fun _ _ _ => hk
  | boolean | numeric | text | object =>
    refine foretold_value hb hn fun e s h => ?_
    rw [hs] at h
    cases h

/-- **Success.** A conversion succeeds exactly on what is deliverable and does not overflow. -/
theorem convert_isOk_iff (hb : v.CarriesBytes) (hn : v.KnowsNil) :
    (∃ n, g.convert t v = .ok n) ↔ g.Deliverable t v ∧ ¬ g.Overflows t v :=
  (foretold hb hn).ok_iff

/-- **Room.** A conversion stops for lack of room exactly on what overflows. -/
theorem convert_overflow_iff (hb : v.CarriesBytes) (hn : v.KnowsNil) :
    g.convert t v = .error .overflow ↔ g.Overflows t v :=
  (foretold hb hn).overflow_iff

/-- **Refusal.** A value is refused as a whole exactly if its score is uncoercible. -/
theorem convert_refused_iff (hb : v.CarriesBytes) (hn : v.KnowsNil) :
    (∃ kind target, g.convert t v = .error (.refused kind target)) ↔
      g.score t v = .uncoercible := by
  rw [Score.eq_uncoercible_iff]
  constructor
  · rintro ⟨kind, target, herr⟩
    by_contra hc
    rw [Bool.not_eq_false] at hc
    by_cases other : ∀ e s, g.strategy t = .array e s → v.kind ≠ .table
    · obtain ⟨n, ok⟩ := (convert_value_iff hb hn other).mpr hc
      rw [ok] at herr
      cases herr
    · push Not at other
      obtain ⟨e, s, hs, hk⟩ := other
      rw [convert_table hs hk hc] at herr
      rcases Strategy.tableValue_eq_error_iff.mp herr with ⟨-, hd⟩ | ⟨-, i, d', -, -, -, hd, -⟩
      · cases hd
      · cases d' <;> cases hd
  · intro hc
    exact ⟨_, _, convert_refused hc⟩

/-- **Refusal of an element.** A coercible value that is not deliverable and does not overflow is a
table for an array, and the conversion names the first of its elements that is not deliverable. -/
theorem convert_elementRefused (hb : v.CarriesBytes) (hn : v.KnowsNil)
    (hc : g.score t v ≠ .uncoercible) (hd : ¬ g.Deliverable t v) (ho : ¬ g.Overflows t v) :
    ∃ e s i, g.strategy t = .array e s ∧ v.kind = .table ∧ 1 ≤ i ∧ i ≤ v.length ∧
      g.convert t v = .error (.elementRefused i (g.name e)) ∧ ¬ g.Deliverable e (v.index i) ∧
      ∀ j, 1 ≤ j → j < i → g.Deliverable e (v.index j) := by
  rw [Ne, Score.eq_uncoercible_iff, Bool.not_eq_false] at hc
  by_cases other : ∀ e s, g.strategy t = .array e s → v.kind ≠ .table
  · exact absurd ((deliverable_value_iff other).mpr hc) hd
  push Not at other
  obtain ⟨e, s, hs, hk⟩ := other
  cases hconv : g.convert t v with
  | ok n => exact absurd ((convert_isOk_iff hb hn).mp ⟨n, hconv⟩).1 hd
  | error d =>
    have hne : d ≠ .overflow := fun heq => ho ((convert_overflow_iff hb hn).mp (heq ▸ hconv))
    rw [convert_table hs hk hc] at hconv
    rcases Strategy.tableValue_eq_error_iff.mp hconv with
      ⟨-, heq⟩ | ⟨-, i, d', h1, hi, herr, rfl, hall⟩
    · exact absurd heq hne
    rw [Ne, DeliveryError.ofElement_eq_overflow_iff] at hne
    rw [DeliveryError.ofElement_of_ne hne]
    refine ⟨e, s, i, hs, hk, h1, hi, rfl, fun hdel => ?_, fun j hj hji => ?_⟩
    · have hstop : ¬ g.Overflows e (v.index i) := by
        rw [← convert_overflow_iff (hb.index hk h1 hi) (hn.index hk h1 hi), herr]
        simpa using hne
      obtain ⟨n, ok⟩ := (convert_isOk_iff (hb.index hk h1 hi) (hn.index hk h1 hi)).mpr
        ⟨hdel, hstop⟩
      rw [ok] at herr
      cases herr
    · have hle : j ≤ v.length := by omega
      exact ((convert_isOk_iff (hb.index hk hj hle) (hn.index hk hj hle)).mp (hall j hj hji)).1

/-- **Items.** A table becomes an array of as many items, each the conversion of an element. -/
theorem convert_items (hs : g.strategy t = .array e s) (hk : v.kind = .table)
    (ok : g.convert t v = .ok n) :
    ∃ items, n = .array e items ∧ items.length = v.length ∧
      ∀ k item, items[k]? = some item → g.convert e (v.index (k + 1)) = .ok item := by
  rw [convert_table hs hk (Strategy.coercible_of_ok ok)] at ok
  exact (Strategy.tableValue_eq_ok_iff.mp ok).2

end TypeGraph

/-! ## Hosts -/

/-- **Agreement.** After any run, scores and conversions of a host agree on a value whose texts carry
bytes and whose nils know that they are. Its conversion stops exactly if it comes to a table that is
too long for an array. Apart from that it is converted exactly if it is deliverable, and refused as
a whole exactly if it scores uncoercible. Otherwise it is a table for an array and the first element
is named that is not deliverable. The array that a table becomes has one item for each element, in
order. -/
theorem Host.Reachable.convert_agrees {h : Host} (hr : h.Reachable) (t : TypeId) {v : ScriptValue}
    (hb : v.CarriesBytes) (hn : v.KnowsNil) :
    ((h.convert t v).1 = .error .overflow ↔ h.types.Overflows t v) ∧
      ((∃ n, (h.convert t v).1 = .ok n) ↔
        h.types.Deliverable t v ∧ ¬ h.types.Overflows t v) ∧
      ((∃ kind target, (h.convert t v).1 = .error (.refused kind target)) ↔
        (h.score t v).1 = .uncoercible) ∧
      ((h.score t v).1 ≠ .uncoercible → ¬ h.types.Deliverable t v → ¬ h.types.Overflows t v →
        ∃ e s i, h.types.strategy t = .array e s ∧ v.kind = .table ∧ 1 ≤ i ∧ i ≤ v.length ∧
          (h.convert t v).1 = .error (.elementRefused i (h.types.name e)) ∧
          ¬ h.types.Deliverable e (v.index i) ∧
          ∀ j, 1 ≤ j → j < i → h.types.Deliverable e (v.index j)) ∧
      ∀ e s n, h.types.strategy t = .array e s → v.kind = .table → (h.convert t v).1 = .ok n →
        ∃ items, n = .array e items ∧ items.length = v.length ∧
          ∀ k item, items[k]? = some item → (h.convert e (v.index (k + 1))).1 = .ok item := by
  simp only [hr.convert_fst, hr.score_fst]
  exact ⟨TypeGraph.convert_overflow_iff hb hn, TypeGraph.convert_isOk_iff hb hn,
    TypeGraph.convert_refused_iff hb hn, TypeGraph.convert_elementRefused hb hn,
    fun _ _ _ => TypeGraph.convert_items⟩

/-- A table whose second element is nil. -/
def gappedTable : ScriptValue :=
  Value.script .initial 3 (.table #[(Value.integer 7).script .initial 1,
    Value.nil.script .initial 2])

theorem plain_gappedTable : gappedTable.Plain := by
  refine ScriptValue.plain_table fun x hx => ?_
  have hx : x = (Value.integer 7).script .initial 1 ∨ x = Value.nil.script .initial 2 := by
    simpa using hx
  rcases hx with rfl | rfl <;> exact .script _ _ _ nofun

theorem strategy_integers :
    (Host.ofArray (Builtin.primitive .int)).types.strategy ⟨25⟩ =
      .array (Builtin.primitive .int) (.numeric .int) := by
  rw [TypeGraph.strategy_of_element (e := Builtin.primitive .int) (by decide) (by decide)
    (by decide), TypeGraph.strategy_of_known (s := .numeric .int) (by decide)]

theorem Host.convert_agrees_gapped :
    (ofArray (Builtin.primitive .int)).Reachable ∧ gappedTable.CarriesBytes ∧
      gappedTable.KnowsNil ∧
      ((ofArray (Builtin.primitive .int)).score ⟨25⟩ gappedTable).1 ≠ .uncoercible ∧
      ((ofArray (Builtin.primitive .int)).convert ⟨25⟩ gappedTable).1 =
        .error (.elementRefused 2 "int") ∧
      ¬ (ofArray (Builtin.primitive .int)).types.Deliverable ⟨25⟩ gappedTable := by
  have hr : (ofArray (Builtin.primitive .int)).Reachable := reachable_ofArray (by decide)
  have hb := plain_gappedTable.carriesBytes
  have hn := plain_gappedTable.knowsNil
  have hscore : ((ofArray (Builtin.primitive .int)).score ⟨25⟩ gappedTable).1 ≠ .uncoercible := by
    rw [hr.score_fst, TypeGraph.score, strategy_integers]
    decide
  have herr : ((ofArray (Builtin.primitive .int)).convert ⟨25⟩ gappedTable).1 =
      .error (.elementRefused 2 "int") := by
    rw [hr.convert_fst, TypeGraph.convert, strategy_integers]
    rfl
  obtain ⟨hstop, hok, -⟩ := hr.convert_agrees ⟨25⟩ hb hn
  refine ⟨hr, hb, hn, hscore, herr, fun hd => ?_⟩
  have ho : ¬ (ofArray (Builtin.primitive .int)).types.Overflows ⟨25⟩ gappedTable := by
    rw [← hstop, herr]
    rintro ⟨⟩
  obtain ⟨n, ok⟩ := hok.mpr ⟨hd, ho⟩
  rw [ok] at herr
  cases herr

/-- A nil that a runtime denies to be nil. -/
def deniedNil : ScriptValue := { ScriptValue.nil with isNil := false }

/-- A table of a single number. -/
def shortTable : ScriptValue :=
  Value.script .initial 2 (.table #[(Value.integer 5).script .initial 1])

/-- The same elements in a table that a runtime takes to be longer than any array. -/
def endlessTable : ScriptValue := { shortTable with length := 0x1000000000000000 }

theorem carriesBytes_deniedNil : deniedNil.CarriesBytes := by
  intro w hp hk
  cases hp with
  | self => cases hk
  | element hkind _ _ _ => cases hkind

theorem score_deniedNil : Host.initial.types.score Builtin.bytes deniedNil = .nilAsNull := by
  rw [TypeGraph.score, TypeGraph.strategy_of_known (s := .text .bytes) (by decide)]
  rfl

theorem convert_deniedNil : Host.initial.types.convert Builtin.bytes deniedNil =
    .error (.refused .nil "byte[]") := by
  rw [TypeGraph.convert, TypeGraph.strategy_of_known (s := .text .bytes) (by decide)]
  rfl

theorem plain_shortTable : shortTable.Plain := by
  refine ScriptValue.plain_table fun x hx => ?_
  have hx : x = (Value.integer 5).script .initial 1 := by simpa using hx
  exact hx ▸ .script _ _ _ nofun

theorem carriesBytes_endlessTable : endlessTable.CarriesBytes := by
  intro w hp hk
  cases hp with
  | self => cases hk
  | @element _ _ i _ _ _ hp => exact (plain_shortTable.index i).carriesBytes w hp hk

theorem score_endlessTable :
    (Host.ofArray (Builtin.primitive .int)).types.score ⟨25⟩ endlessTable = .ofCost 1 := by
  rw [TypeGraph.score, strategy_integers]
  rfl

theorem convert_endlessTable :
    (Host.ofArray (Builtin.primitive .int)).types.convert ⟨25⟩ endlessTable =
      .error .overflow := by
  rw [TypeGraph.convert_table strategy_integers rfl (by rw [score_endlessTable]; rfl)]
  exact Strategy.tableValue_of_overflow (by decide)

theorem not_deliverable_endlessTable :
    ¬ (Host.ofArray (Builtin.primitive .int)).types.Deliverable ⟨25⟩ endlessTable := by
  intro hd
  have hsecond := (TypeGraph.deliverable_table_iff strategy_integers rfl).mp hd 2 (by decide)
    (by decide)
  have hcoercible := hsecond.isCoercible
  rw [TypeGraph.score, TypeGraph.strategy_of_known (s := .numeric .int) (by decide)] at hcoercible
  cases hcoercible

/-- A nil that is denied to be nil is deliverable as bytes and refused. The second element of an
endless table is not deliverable, and the conversion does not come to name it. -/
theorem Host.convert_disagrees :
    (deniedNil.CarriesBytes ∧ initial.types.Deliverable Builtin.bytes deniedNil ∧
        (initial.score Builtin.bytes deniedNil).1 ≠ .uncoercible ∧
        (initial.convert Builtin.bytes deniedNil).1 = .error (.refused .nil "byte[]")) ∧
      endlessTable.CarriesBytes ∧
        ¬ (ofArray (Builtin.primitive .int)).types.Deliverable ⟨25⟩ endlessTable ∧
        ((ofArray (Builtin.primitive .int)).score ⟨25⟩ endlessTable).1 = .ofCost 1 ∧
        ((ofArray (Builtin.primitive .int)).convert ⟨25⟩ endlessTable).1 = .error .overflow := by
  have hr : (ofArray (Builtin.primitive .int)).Reachable := reachable_ofArray (by decide)
  rw [Reachable.initial.score_fst, Reachable.initial.convert_fst, hr.score_fst, hr.convert_fst,
    score_deniedNil]
  refine ⟨⟨carriesBytes_deniedNil, .value ?_ ?_, by decide, convert_deniedNil⟩,
    carriesBytes_endlessTable, not_deliverable_endlessTable, score_endlessTable,
    convert_endlessTable⟩
  · intro e s _
    decide
  · rw [score_deniedNil]
    rfl

end Interop
