import Interop.Delivery.Store
import Interop.Proofs.Types.Growth

/-!
# Stores agree with the types

What a store keeps for a type is the strategy that the type graph gives it, whatever has been
looked up before. A store that agrees with a graph also agrees with every later graph.

* `TypeGraph.GrowsTo.strategy`: the strategy of a type does not change when the graph grows.
* `StrategyStore.Agrees`: the entries are right. A new store agrees (`agrees_initial`), and so does
  a store that has been asked for a type (`Agrees.lookup`).
* `StrategyStore.Agrees.score_fst`, `Agrees.convert_fst`: a store answers as the graph does.
* `StrategyStore.lookupWithin`: a look-up by recursion over the element types.
  `StrategyStore.lookupWithin_eq`: it ends.
-/

namespace Interop

/-! ## Strategies -/

namespace TypeGraph

variable {g g' : TypeGraph} {t e : TypeId}

theorem strategy_of_known {s : Strategy} (h : Strategy.known? t = some s) : g.strategy t = s := by
  rw [strategy, h]

/-- The strategy of an array type that is not a known one. -/
theorem strategy_of_element (hk : Strategy.known? t = none) (he : g.element? t = some e)
    (older : e.index < t.index) : g.strategy t = .array e (g.strategy e) := by
  rw [strategy, hk, he]
  simp only [older, if_true]

theorem strategy_of_no_element (hk : Strategy.known? t = none) (he : g.element? t = none) :
    g.strategy t = .object t := by
  rw [strategy, hk, he]

theorem strategy_of_young_element (hk : Strategy.known? t = none) (he : g.element? t = some e)
    (young : ¬ e.index < t.index) : g.strategy t = .object t := by
  rw [strategy, hk, he]
  simp only [young, if_false]

/-- The strategy of the elements that an array strategy holds is that of the element type. -/
theorem elements_eq_strategy {elements : Strategy} (h : g.strategy t = .array e elements) :
    elements = g.strategy e := by
  cases hk : Strategy.known? t with
  | some s =>
    rw [strategy_of_known hk] at h
    subst h
    unfold Strategy.known? at hk
    split at hk
    · rename_i p _
      cases p <;> cases hk
    · split at hk
      · cases hk
      · split at hk <;> cases hk
  | none =>
    cases he : g.element? t with
    | none =>
      rw [strategy_of_no_element hk he] at h
      cases h
    | some e' =>
      by_cases older : e'.index < t.index
      · rw [strategy_of_element hk he older] at h
        cases h
        rfl
      · rw [strategy_of_young_element hk he older] at h
        cases h

theorem GrowsTo.strategy (h : g.GrowsTo g') (ht : g.Has t) : g'.strategy t = g.strategy t := by
  induction t using TypeGraph.strategy.induct g with
  | case1 t s hk => rw [strategy_of_known hk, strategy_of_known hk]
  | case2 t hk e he older ih =>
    have he' : g'.element? t = some e := by rw [h.element? ht, he]
    rw [strategy_of_element hk he older, strategy_of_element hk he' older,
      ih (Nat.lt_trans older ht)]
  | case3 t hk e he young =>
    have he' : g'.element? t = some e := by rw [h.element? ht, he]
    rw [strategy_of_young_element hk he young, strategy_of_young_element hk he' young]
  | case4 t hk he =>
    have he' : g'.element? t = none := by rw [h.element? ht, he]
    rw [strategy_of_no_element hk he, strategy_of_no_element hk he']

end TypeGraph

/-! ## Known types -/

theorem Builtin.eq_of_carried? {t : TypeId} {p : Primitive} (h : Builtin.carried? t = some p) :
    t = Builtin.primitive p ∨ t = Builtin.wrapper p := by
  simpa using List.find?_some h

/-- The types whose strategies are fixed are among the first types of every graph. -/
theorem Strategy.has_of_known {t : TypeId} {s : Strategy} (h : Strategy.known? t = some s) :
    TypeGraph.initial.Has t := by
  unfold Strategy.known? at h
  split at h
  · rename_i p hp
    rcases Builtin.eq_of_carried? hp with rfl | rfl <;> cases p <;> decide
  · split at h
    · rename_i ht
      subst ht
      decide
    · split at h
      · rename_i ht
        subst ht
        decide
      · cases h

/-! ## Stores -/

namespace StrategyStore

variable {g g' : TypeGraph} {r : StrategyStore} {t : TypeId}

/-- The entries are right, and those of the known types are there. -/
structure Agrees (r : StrategyStore) (g : TypeGraph) : Prop where
  right : ∀ t entry, r.entries.get? t = some entry → g.Has t ∧ entry.strategy = g.strategy t
  seeded : ∀ t s, Strategy.known? t = some s → (r.entries.get? t).isSome

private theorem initial_slots : initial.entries.slots.size = TypeGraph.initial.size ∧
    ∀ i < TypeGraph.initial.size,
      (initial.entries.get? ⟨i⟩).map Entry.strategy = Strategy.known? ⟨i⟩ := by
  decide +kernel

/-- The entries of a new store are the strategies of the known types. -/
theorem initial_get? (t : TypeId) :
    (initial.entries.get? t).map Entry.strategy = Strategy.known? t := by
  by_cases ht : t.index < TypeGraph.initial.size
  · exact initial_slots.2 t.index ht
  · have hget : initial.entries.get? t = none := by
      rw [TypeMap.get?, Array.getElem?_eq_none (by rw [initial_slots.1]; omega)]
      rfl
    cases hk : Strategy.known? t with
    | none => rw [hget]; rfl
    | some s => exact absurd (Strategy.has_of_known hk) ht

theorem agrees_initial (h : TypeGraph.initial.GrowsTo g) : initial.Agrees g where
  right t entry hget := by
    have hk := initial_get? t
    rw [hget] at hk
    exact ⟨h.has (Strategy.has_of_known hk.symm), (TypeGraph.strategy_of_known hk.symm).symm⟩
  seeded t s hk := by
    rw [← Option.isSome_map (f := Entry.strategy), initial_get?, hk]
    rfl

theorem Agrees.growsTo (h : r.Agrees g) (hg : g.GrowsTo g') : r.Agrees g' where
  right t entry hget := by
    obtain ⟨ht, hs⟩ := h.right t entry hget
    exact ⟨hg.has ht, by rw [hs, hg.strategy ht]⟩
  seeded := h.seeded

theorem Agrees.unknown (h : r.Agrees g) (hget : r.entries.get? t = none) :
    Strategy.known? t = none := by
  cases hk : Strategy.known? t with
  | none => rfl
  | some s => simpa [hget] using h.seeded t s hk

/-- Keeping the right strategy of a type of the graph. -/
theorem Agrees.store (h : r.Agrees g) (ht : g.Has t) {s : Strategy} (hs : s = g.strategy t)
    (cell : Option Nat) : (r.store t s cell).2.Agrees g where
  right u entry hget := by
    simp only [StrategyStore.store, TypeMap.get?_insert] at hget
    split at hget
    · rename_i htu
      subst htu
      cases hget
      exact ⟨ht, hs⟩
    · exact h.right u entry hget
  seeded u s' hk := by
    simp only [StrategyStore.store, TypeMap.get?_insert]
    split
    · rfl
    · exact h.seeded u s' hk

/-- **Look-ups.** A store gives a type its strategy, and still agrees after it has been asked for
a type of the graph. -/
theorem Agrees.lookup (h : r.Agrees g) (t : TypeId) :
    (r.lookup g t).1.strategy = g.strategy t ∧ (g.Has t → (r.lookup g t).2.Agrees g) := by
  fun_induction StrategyStore.lookup g r t with
  | case1 t entry hget => exact ⟨(h.right t entry hget).2, fun _ => h⟩
  | case2 t hget e he older inner r' hinner ih =>
    have hs : .array e inner.strategy = g.strategy t := by
      rw [TypeGraph.strategy_of_element (h.unknown hget) he older, ← ih.1, hinner]
    refine ⟨hs, fun ht => ?_⟩
    have hr' := ih.2 (Nat.lt_trans older ht)
    rw [hinner] at hr'
    exact hr'.store ht hs _
  | case3 t hget e he young =>
    have hs : .object t = g.strategy t :=
      (TypeGraph.strategy_of_young_element (h.unknown hget) he young).symm
    exact ⟨hs, fun ht => h.store ht hs _⟩
  | case4 t hget he =>
    have hs : .object t = g.strategy t :=
      (TypeGraph.strategy_of_no_element (h.unknown hget) he).symm
    exact ⟨hs, fun ht => h.store ht hs _⟩

theorem Agrees.score_fst (h : r.Agrees g) (t : TypeId) (v : ScriptValue) :
    (r.score g t v).1 = g.score t v := by
  show (r.lookup g t).1.strategy.score g v = _
  rw [(h.lookup t).1, TypeGraph.score]

theorem Agrees.convert_fst (h : r.Agrees g) (t : TypeId) (v : ScriptValue) :
    (r.convert g t v).1 = g.convert t v := by
  show (r.lookup g t).1.strategy.convert g v = _
  rw [(h.lookup t).1, TypeGraph.convert]

/-! ## Recursion -/

/-- The entry of a type, made after that of its elements if it is missing. The recursion has no
answer if it would have to go deeper than `depth`. -/
def lookupWithin (g : TypeGraph) :
    Nat → StrategyStore → TypeId → Option (Entry × StrategyStore)
  | depth, r, t =>
    match r.entries.get? t with
    | some entry => some (entry, r)
    | none =>
      match g.element? t with
      | none => some (r.store t (.object t) none)
      | some element =>
        match depth with
        | 0 => none
        | depth + 1 =>
          (lookupWithin g depth r element).map fun (inner, r) =>
            r.store t (.array element inner.strategy) (some inner.cell)

/-- **Depth.** Element types are older, so a look-up never goes deeper than there are older types,
and it needs no check that they are. -/
theorem lookupWithin_eq (hg : g.WellFormed) (r : StrategyStore) {depth : Nat}
    (ht : t.index < depth) : lookupWithin g depth r t = some (r.lookup g t) := by
  induction depth generalizing r t with
  | zero => exact absurd ht (Nat.not_lt_zero _)
  | succ depth ih =>
    rw [lookupWithin, lookup.eq_def]
    cases hget : r.entries.get? t with
    | some entry => rfl
    | none =>
      cases he : g.element? t with
      | none => rfl
      | some e =>
        have older := hg.element_older t e he
        simp only [ih r (Nat.lt_of_lt_of_le older (Nat.le_of_lt_succ ht)), if_pos older]
        rfl

end StrategyStore

end Interop
