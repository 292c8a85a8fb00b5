import Interop.Delivery.Strategy
import Interop.Proofs.Delivery.Score
import Mathlib.Data.List.Forall2

/-!
# What conversions give

One law for each strategy says when it accepts a value and what it makes of it. Later proofs use
these laws in place of the definitions.

* `Strategy.tableValue_eq_ok_iff`, `Strategy.tableValue_eq_error_iff`: a table for which there is
  room is converted element by element, and the first element that fails is reported.
* `Strategy.convert_refused`: what scores uncoercible is refused.
* `Strategy.convert_boolean`, `convert_numeric`, `convert_text`, `convert_bytes`, `convert_table`,
  `convert_array` and `convert_object`: what a strategy makes of a value that it accepts.
-/

namespace Interop

/-! ## Traversals that stop at the first error -/

section Traversals

variable {α β ε : Type} {f : α → Except ε β}

/-- A traversal succeeds with one result for each item. -/
theorem mapM_eq_ok_iff {xs : List α} {ys : List β} :
    xs.mapM f = .ok ys ↔ List.Forall₂ (fun x y => f x = .ok y) xs ys := by
  induction xs generalizing ys with
  | nil => cases ys <;> simp [pure, Except.pure]
  | cons x xs ih =>
    rw [List.mapM_cons]
    cases hx : f x with
    | error e => cases ys <;> simp [bind, Except.bind, hx]
    | ok y =>
      cases hxs : xs.mapM f with
      | error e => cases ys <;> simp [bind, Except.bind, hx, hxs, ← ih]
      | ok ys' => cases ys <;> simp [bind, Except.bind, pure, Except.pure, hx, hxs, ← ih]

/-- A traversal fails with the error of the first item that fails. -/
theorem mapM_eq_error_iff {xs : List α} {e : ε} :
    xs.mapM f = .error e ↔ ∃ (k : Nat) (x : α), xs[k]? = some x ∧ f x = .error e ∧
      ∀ j < k, ∀ y, xs[j]? = some y → ∃ b, f y = .ok b := by
  induction xs with
  | nil => simp [pure, Except.pure]
  | cons x xs ih =>
    rw [List.mapM_cons]
    constructor
    · intro h
      cases hx : f x with
      | error e' =>
        rw [hx] at h
        cases h
        exact ⟨0, x, rfl, hx, fun j hj => absurd hj (Nat.not_lt_zero j)⟩
      | ok b =>
        cases hxs : xs.mapM f with
        | ok ys => rw [hx, hxs] at h; cases h
        | error e' =>
          rw [hx, hxs] at h
          cases h
          obtain ⟨k, y, hk, hy, hall⟩ := ih.mp hxs
          refine ⟨k + 1, y, hk, hy, fun j hj z hz => ?_⟩
          cases j with
          | zero => cases hz; exact ⟨b, hx⟩
          | succ j => exact hall j (Nat.lt_of_succ_lt_succ hj) z hz
    · rintro ⟨k, y, hk, hy, hall⟩
      cases k with
      | zero =>
        cases hk
        rw [hy]
        rfl
      | succ k =>
        obtain ⟨b, hb⟩ := hall 0 (Nat.succ_pos k) x rfl
        have hxs : xs.mapM f = .error e :=
          ih.mpr ⟨k, y, hk, hy, fun j hj z hz => hall (j + 1) (Nat.succ_lt_succ hj) z hz⟩
        rw [hb, hxs]
        rfl

theorem mapError_eq_ok_iff {δ : Type} {m : ε → δ} {r : Except ε β} {b : β} :
    r.mapError m = .ok b ↔ r = .ok b := by
  cases r <;> simp [Except.mapError]

theorem mapError_eq_error_iff {δ : Type} {m : ε → δ} {r : Except ε β} {d : δ} :
    r.mapError m = .error d ↔ ∃ e, r = .error e ∧ m e = d := by
  cases r <;> simp [Except.mapError]

theorem map_eq_ok_iff {γ : Type} {m : β → γ} {r : Except ε β} {c : γ} :
    r.map m = .ok c ↔ ∃ b, r = .ok b ∧ m b = c := by
  cases r <;> simp [Except.map]

theorem map_eq_error_iff {γ : Type} {m : β → γ} {r : Except ε β} {e : ε} :
    r.map m = .error e ↔ r = .error e := by
  cases r <;> simp [Except.map]

end Traversals

namespace Strategy

variable {g : TypeGraph} {e : TypeId} {convert : ScriptValue → Except DeliveryError NativeValue}
  {v : ScriptValue} {n : NativeValue}

/-! ## Tables -/

/-- No element is looked at if there is no room for all of them. -/
theorem tableValue_of_overflow (h : NativeValue.capacity < v.length) :
    tableValue g e convert v = .error .overflow := by
  rw [tableValue, if_pos h]
  rfl

theorem tableValue_of_room (h : v.length ≤ NativeValue.capacity) :
    tableValue g e convert v =
      ((List.range' 1 v.length).mapM fun position =>
        (convert (v.index position)).mapError (.ofElement position (g.name e))).map
          (.array e) := by
  rw [tableValue, if_neg (Nat.not_lt.mpr h)]
  rfl

/-- A table becomes an array of its elements, in order. -/
theorem tableValue_eq_ok_iff :
    tableValue g e convert v = .ok n ↔ v.length ≤ NativeValue.capacity ∧
      ∃ items, n = .array e items ∧ items.length = v.length ∧
        ∀ k item, items[k]? = some item → convert (v.index (k + 1)) = .ok item := by
  have each : ∀ items : List NativeValue,
      (List.range' 1 v.length).mapM (fun position => (convert (v.index position)).mapError
        (DeliveryError.ofElement position (g.name e))) = .ok items ↔
      items.length = v.length ∧
        ∀ k item, items[k]? = some item → convert (v.index (k + 1)) = .ok item := by
    intro items
    rw [mapM_eq_ok_iff, List.forall₂_iff_get]
    simp only [List.length_range', mapError_eq_ok_iff, List.get_eq_getElem, List.getElem_range',
      Nat.one_mul, Nat.add_comm 1]
    constructor
    · rintro ⟨hl, hall⟩
      refine ⟨hl.symm, fun k item hk => ?_⟩
      obtain ⟨hlt, rfl⟩ := List.getElem?_eq_some_iff.mp hk
      exact hall k (hl ▸ hlt) hlt
    · rintro ⟨hl, hall⟩
      exact ⟨hl.symm, fun k _ hk => hall k _ (List.getElem?_eq_getElem hk)⟩
  rcases Nat.lt_or_ge NativeValue.capacity v.length with hlong | hroom
  · rw [tableValue_of_overflow hlong]
    exact ⟨by rintro ⟨⟩, fun h => absurd h.1 (Nat.not_le.mpr hlong)⟩
  · rw [tableValue_of_room hroom, map_eq_ok_iff]
    simp only [each, hroom, true_and, eq_comm, and_comm]

/-- A table fails for lack of room, or with the error of its first element that fails. -/
theorem tableValue_eq_error_iff {d : DeliveryError} :
    tableValue g e convert v = .error d ↔
      NativeValue.capacity < v.length ∧ d = .overflow ∨
      v.length ≤ NativeValue.capacity ∧ ∃ i d', 1 ≤ i ∧ i ≤ v.length ∧
        convert (v.index i) = .error d' ∧ d = .ofElement i (g.name e) d' ∧
        ∀ j, 1 ≤ j → j < i → ∃ item, convert (v.index j) = .ok item := by
  rcases Nat.lt_or_ge NativeValue.capacity v.length with hlong | hroom
  · rw [tableValue_of_overflow hlong]
    simp [hlong, Nat.not_le.mpr hlong, eq_comm]
  rw [tableValue_of_room hroom, map_eq_error_iff, mapM_eq_error_iff]
  simp only [Nat.not_lt.mpr hroom, hroom, false_and, false_or, true_and, mapError_eq_ok_iff,
    mapError_eq_error_iff]
  constructor
  · rintro ⟨k, i, hk, ⟨d', hd', rfl⟩, hall⟩
    obtain ⟨hlt, rfl⟩ := List.getElem?_eq_some_iff.mp hk
    rw [List.length_range'] at hlt
    rw [List.getElem_range'] at hd' ⊢
    refine ⟨_, d', by omega, by omega, hd', rfl, fun j hj hjk => ?_⟩
    exact hall (j - 1) (by omega) j (by rw [List.getElem?_range' (by omega)]; congr 1; omega)
  · rintro ⟨i, d', h1, hi, hd', rfl, hall⟩
    refine ⟨i - 1, i, ?_, ⟨d', hd', rfl⟩, fun j hj y hy => ?_⟩
    · rw [List.getElem?_range' (by omega)]
      congr 1
      omega
    · rw [List.getElem?_range' (by omega)] at hy
      cases hy
      exact hall _ (by omega) (by omega)

/-! ## Refusals -/

variable {s : Strategy}

theorem convert_refused (h : (s.score g v).isCoercible = false) :
    s.convert g v = .error (s.refusal g v) := by
  unfold convert
  simp only [h, Bool.not_false, if_true]

/-- Only a value with a coercible score is converted. -/
theorem coercible_of_ok (h : s.convert g v = .ok n) : (s.score g v).isCoercible = true := by
  by_contra hs
  rw [convert_refused (by simpa using hs)] at h
  cases h

/-! ## Single values -/

theorem isCoercible_boolean (g : TypeGraph) (v : ScriptValue) :
    (boolean.score g v).isCoercible = true := by
  unfold score booleanScore
  split <;> rfl

theorem convert_boolean (g : TypeGraph) (v : ScriptValue) :
    boolean.convert g v = .ok (.boolean v.truth) := by
  unfold convert
  simp only [isCoercible_boolean, Bool.not_true, Bool.false_eq_true, if_false]

/-- Only numbers and texts that read as numbers are numbers for a numeric type. -/
theorem convert_numeric {target : NumericForm}
    (h : ((numeric target).score g v).isCoercible = true) :
    ∃ m, (v.kind = .number ∨ v.kind = .text) ∧ v.number? = some m ∧
      (numeric target).convert g v = .ok (target.deliver m) := by
  have hv : (v.kind = .number ∨ v.kind = .text) ∧ ∃ m, v.number? = some m := by
    unfold score numericScore at h
    split at h
    · exact ⟨.inl ‹_›, _, ‹_›⟩
    · exact ⟨.inr ‹_›, _, ‹_›⟩
    · cases h
  obtain ⟨hk, m, hm⟩ := hv
  refine ⟨m, hk, hm, ?_⟩
  unfold convert
  simp only [h, hm, Bool.not_true, Bool.false_eq_true, if_false]

theorem isCoercible_text (g : TypeGraph) (v : ScriptValue) :
    ((text .text).score g v).isCoercible = true := by
  unfold score textScore
  split
  · split <;> rfl
  · split <;> rfl
  · rfl
  · rfl
  · simp_all

/-- Everything has a written form. -/
theorem convert_text (g : TypeGraph) (v : ScriptValue) :
    (text .text).convert g v = .ok (if v.isNil then .null else .text v.text) := by
  unfold convert textValue?
  simp only [isCoercible_text, Bool.not_true, Bool.false_eq_true, if_false]
  by_cases hn : v.isNil
  · rw [if_pos hn, if_pos hn]
  · rw [if_neg hn, if_neg hn]

/-- Only texts and nil are byte arrays. What has no bytes is refused by the conversion, unless it
says that it is nil. -/
theorem convert_bytes (h : ((text .bytes).score g v).isCoercible = true) :
    (v.kind = .nil ∨ v.kind = .text) ∧
      (text .bytes).convert g v =
        if v.isNil then .ok .null
        else
          match v.bytes? with
          | some b => .ok (.bytes b)
          | none => .error ((text .bytes).refusal g v) := by
  constructor
  · unfold score textScore at h
    split at h
    · exact .inr ‹_›
    · exact .inr ‹_›
    · exact .inl ‹_›
    · simp_all
    · cases h
  · unfold convert textValue?
    simp only [h, Bool.not_true, Bool.false_eq_true, if_false]
    by_cases hn : v.isNil
    · rw [if_pos hn, if_pos hn]
    · rw [if_neg hn, if_neg hn]
      cases v.bytes? <;> rfl

/-! ## Arrays -/

theorem convert_table (hk : v.kind = .table)
    (h : ((array e s).score g v).isCoercible = true) :
    (array e s).convert g v = tableValue g e (s.convert g) v := by
  rw [convert]
  simp only [h, hk, Bool.not_true, Bool.false_eq_true, if_false]

/-- What is not a table is an array only as nil or as an object whose type is an array type. -/
theorem convert_array (hk : v.kind ≠ .table) (h : ((array e s).score g v).isCoercible = true) :
    (v.kind = .nil ∧ (array e s).convert g v = .ok .null) ∨
      ∃ o u, v.kind = .userdata ∧ v.object? = some o ∧ g.element? o.type = some u ∧
        g.admits e u = true ∧ (array e s).convert g v = .ok (.object o) := by
  rw [convert]
  simp only [h, Bool.not_true, Bool.false_eq_true, if_false]
  rw [score] at h
  cases hv : v.kind with
  | nil => exact .inl ⟨rfl, rfl⟩
  | table => exact absurd hv hk
  | userdata =>
    rw [hv] at h
    obtain ⟨u, hu, hadm⟩ := Score.isCoercible_distance.mp h
    obtain ⟨o, ho, hou⟩ := Option.bind_eq_some_iff.mp hu
    refine .inr ⟨o, u, rfl, ho, hou, hadm, ?_⟩
    rw [unwrap, ho]
    rfl
  | boolean | number | text | function | thread =>
    rw [hv] at h
    cases h

/-! ## Delivery by inheritance -/

/-- Nil is null, and every other value is delivered as what it is by nature. -/
theorem convert_object {target : TypeId} (h : ((object target).score g v).isCoercible = true) :
    (v.kind = .nil ∨ ∃ u, naturalType? v = some u ∧ g.admits target u = true) ∧
      (object target).convert g v = .ok (objectValue v) := by
  constructor
  · rw [score, objectScore] at h
    split at h
    · exact .inl ‹_›
    · exact .inr (Score.isCoercible_distance.mp h)
  · rw [convert]
    simp only [h, Bool.not_true, Bool.false_eq_true, if_false]

end Strategy

end Interop
