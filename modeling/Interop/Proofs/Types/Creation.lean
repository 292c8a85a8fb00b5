import Interop.Proofs.Types.Path
import Mathlib.Logic.Relation

/-!
# Graphs are made type by type

A new type comes last in its graph and rests on types that are there: its superclass, its
interfaces and its element type. So no chain of such types comes back to where it began. Arrays are
the only types that are not made anew each time: a table finds those that are there.

* `TypeGraph.RestsOn`: what a type rests on. `TypeGraph.WellFormed.acyclic`: there are no cycles.
* `TypeGraph.Creates`: the two ways in which a graph gains a type.
* `TypeGraph.Interned`: the table has each array type under the number of its element type, and
  nothing else. It holds of `TypeGraph.initial` (`interned_initial`), and every new type keeps it
  (`Creates.interned`).
* `TypeGraph.size_le_numbers_iff`: numbers tell types apart just as long as there are enough of
  them.
-/

namespace Interop

/-! ## Numbers -/

namespace TypeId

variable {t u v : TypeId}

/-- Numbers come again after as many types as there are numbers. -/
theorem same_iff : t.Same u ↔ t.index % numbers = u.index % numbers := by
  rw [Same, number, number, ← UInt32.toNat_inj, UInt32.toNat_ofNat', UInt32.toNat_ofNat', numbers]
  omega

theorem first_eq_iff : t.first = u.first ↔ t.Same u := by
  rw [first, first, same_iff, mk.injEq]

theorem Same.refl (t : TypeId) : t.Same t := rfl

theorem Same.symm (h : t.Same u) : u.Same t := Eq.symm h

theorem Same.trans (h : t.Same u) (h' : u.Same v) : t.Same v := Eq.trans h h'

end TypeId

namespace TypeGraph

variable {g g' : TypeGraph} {t u e a : TypeId} {d : Descriptor}

/-- Two types of a small graph that have the same number are one type. -/
theorem eq_of_same (hs : g.size ≤ TypeId.numbers) (ht : g.Has t) (hu : g.Has u) (h : t.Same u) :
    t = u := by
  have ht : t.index < TypeId.numbers := Nat.lt_of_lt_of_le ht hs
  have hu : u.index < TypeId.numbers := Nat.lt_of_lt_of_le hu hs
  rw [TypeId.same_iff, Nat.mod_eq_of_lt ht, Nat.mod_eq_of_lt hu] at h
  exact congrArg TypeId.mk h

/-- **Numbers.** Numbers tell the types of a graph apart just as long as there is one for each. -/
theorem size_le_numbers_iff :
    g.size ≤ TypeId.numbers ↔ ∀ t u, g.Has t → g.Has u → t.Same u → t = u := by
  refine ⟨fun hs _ _ => eq_of_same hs, fun h => ?_⟩
  by_contra hs
  -- the first type and the one that gets its number next
  have hnumbers : 0 < TypeId.numbers := by decide
  have heq := h ⟨0⟩ ⟨TypeId.numbers⟩ (Nat.lt_trans hnumbers (Nat.lt_of_not_le hs))
    (Nat.lt_of_not_le hs) (TypeId.same_iff.mpr (by simp))
  exact absurd (congrArg TypeId.index heq) (Nat.ne_of_lt hnumbers)

/-! ## What a type rests on -/

/-- `u` is the superclass of `t`, one of its interfaces or its element type. -/
inductive RestsOn (g : TypeGraph) (t u : TypeId) : Prop
  | superclass (h : g.superclass? t = some u)
  | interface (h : u ∈ g.interfaces t)
  | element (h : g.element? t = some u)

theorem restsOn_iff : g.RestsOn t u ↔ u ∈ g.supertypes t ∨ g.element? t = some u := by
  rw [mem_supertypes]
  constructor
  · rintro (h | h | h)
    · exact .inl (.inl h)
    · exact .inl (.inr h)
    · exact .inr h
  · rintro ((h | h) | h)
    · exact .superclass h
    · exact .interface h
    · exact .element h

theorem RestsOn.has (h : g.RestsOn t u) : g.Has t := by
  rcases restsOn_iff.mp h with h | h
  · exact has_of_mem_supertypes h
  · exact has_of_element? h

/-- A type rests on the same types in every later graph. -/
theorem GrowsTo.restsOn (h : g.GrowsTo g') (ht : g.Has t) : g'.RestsOn t u ↔ g.RestsOn t u := by
  rw [restsOn_iff, restsOn_iff, h.supertypes ht, h.element? ht]

/-- **Order.** What a type rests on is older. -/
theorem WellFormed.index_lt_of_restsOn (hg : g.WellFormed) (h : g.RestsOn t u) :
    u.index < t.index := by
  rcases restsOn_iff.mp h with h | h
  · exact hg.supertypes_older t u h
  · exact hg.element_older t u h

/-- **Cycles.** No type rests on itself, at any depth. -/
theorem WellFormed.acyclic (hg : g.WellFormed) (t : TypeId) :
    ¬ Relation.TransGen g.RestsOn t t := by
  have older : ∀ {t u}, Relation.TransGen g.RestsOn t u → u.index < t.index := by
    intro t u h
    induction h with
    | single h => exact hg.index_lt_of_restsOn h
    | tail _ h ih => exact Nat.lt_trans (hg.index_lt_of_restsOn h) ih
  exact fun h => Nat.lt_irrefl _ (older h)

/-! ## New types -/

/-- The graph gains a type: one that is no array, or the array type over an element type that has
none yet. -/
inductive Creates (g : TypeGraph) : TypeId → TypeGraph → Prop
  | declared (d : Descriptor) (hd : ∀ e, d.shape ≠ .array e) : Creates g (g.add d).1 (g.add d).2
  | array (e : TypeId) (free : g.arrayType? e = none) :
      Creates g (g.arrayType e).1 (g.arrayType e).2

theorem size_add (g : TypeGraph) (d : Descriptor) : (g.add d).2.size = g.size + 1 :=
  Array.size_push _

/-- The descriptor of an array type. -/
def arrayOver (g : TypeGraph) (e : TypeId) : Descriptor :=
  ⟨g.name e ++ "[]", .array e, some Builtin.object, []⟩

theorem arrayType_of_free (free : g.arrayType? e = none) :
    g.arrayType e =
      (⟨g.size⟩, { (g.add (g.arrayOver e)).2 with arrays := g.arrays.insert e.first ⟨g.size⟩ }) := by
  rw [arrayType, free]
  rfl

theorem arrayType_of_found (found : g.arrayType? e = some a) : g.arrayType e = (a, g) := by
  rw [arrayType, found]

theorem Creates.index_eq (hc : g.Creates t g') : t.index = g.size := by
  cases hc with
  | declared d hd => rfl
  | array e free => rw [arrayType_of_free free]

theorem Creates.size_eq (hc : g.Creates t g') : g'.size = g.size + 1 := by
  cases hc with
  | declared d hd => exact size_add g d
  | array e free =>
    rw [arrayType_of_free free]
    exact size_add g _

/-- The new type is none of those that were there. -/
theorem Creates.not_has (hc : g.Creates t g') : ¬ g.Has t := by
  rw [Has, hc.index_eq]
  exact Nat.lt_irrefl _

/-- A graph gains a single type at a time. -/
theorem Creates.has_iff (hc : g.Creates t g') : g'.Has u ↔ g.Has u ∨ u = t := by
  have hut : u = t ↔ u.index = g.size := by
    rw [← hc.index_eq]
    exact ⟨congrArg TypeId.index, fun h => congrArg TypeId.mk h⟩
  rw [hut, Has, Has, hc.size_eq]
  omega

/-! ## Array types -/

theorem shape?_add (g : TypeGraph) (d : Descriptor) (t : TypeId) :
    (g.add d).2.shape? t = if t.index = g.size then some d.shape else g.shape? t := by
  rw [shape?, descriptor?_add]
  split <;> rfl

theorem element?_add_self (hd : ∀ e, d.shape ≠ .array e) :
    (g.add d).2.element? (g.add d).1 = none := by
  rw [element?, shape?, descriptor?_add_self, Option.map_some]
  split
  · rename_i e he
    exact absurd (Option.some.inj he) (hd e)
  · rfl

/-- A new type that is no array type has no elements, and neither had its place before. -/
theorem element?_add (hd : ∀ e, d.shape ≠ .array e) : (g.add d).2.element? a = g.element? a := by
  by_cases ha : a.index = g.size
  · have hself : a = (g.add d).1 := congrArg TypeId.mk ha
    have hfree : g.element? a = none := by
      refine Option.eq_none_iff_forall_not_mem.mpr fun e he => ?_
      exact Nat.ne_of_lt (has_of_element? he) ha
    rw [hfree, hself, element?_add_self hd]
  · rw [element?, shape?_add, if_neg ha]
    rfl

theorem element?_add_array (hd : d.shape = .array e) :
    (g.add d).2.element? a = if a.index = g.size then some e else g.element? a := by
  rw [element?, shape?_add]
  by_cases ha : a.index = g.size
  · rw [if_pos ha, if_pos ha, hd]
  · rw [if_neg ha, if_neg ha]
    rfl

/-- Types of the same number have the same array type. -/
theorem arrayType?_of_same (h : e.Same u) : g.arrayType? e = g.arrayType? u := by
  rw [arrayType?, arrayType?, TypeId.first_eq_iff.mpr h]

theorem arrayType?_insert (m : TypeMap TypeId) (t e a : TypeId) :
    (TypeGraph.mk g.descriptors (m.insert t.first a)).arrayType? e =
      if t.Same e then some a else (TypeGraph.mk g.descriptors m).arrayType? e := by
  rw [arrayType?, arrayType?, TypeMap.get?_insert]
  simp only [TypeId.first_eq_iff]

/-- The table of array types has each array type under the number of its element type, and nothing
else. -/
def Interned (g : TypeGraph) : Prop :=
  ∀ e a, g.arrayType? e = some a ↔ ∃ u, g.element? a = some u ∧ u.Same e

private theorem initial_arrays : ∀ i < initial.size, ∀ e ∈ initial.element? ⟨i⟩,
    (⟨i⟩ : TypeId) = Builtin.bytes ∧ e = Builtin.primitive .byte := by
  decide

theorem interned_initial : initial.Interned := by
  intro e a
  have hget : initial.arrayType? e =
      if (Builtin.primitive .byte).Same e then some Builtin.bytes else none :=
    arrayType?_insert (g := initial) .empty _ _ _
  rw [hget]
  constructor
  · intro h
    split at h
    · rename_i he
      cases h
      exact ⟨_, rfl, he⟩
    · cases h
  · rintro ⟨u, hu, hsame⟩
    obtain ⟨ha, rfl⟩ := initial_arrays a.index (has_of_element? hu) u hu
    rw [if_pos hsame, ← ha]

/-- **Interning.** The table stays right when the graph gains a type. -/
theorem Creates.interned (hc : g.Creates t g') (h : g.Interned) : g'.Interned := by
  cases hc with
  | declared d hd =>
    intro e a
    simp only [element?_add hd]
    exact h e a
  | array e free =>
    intro e' a
    rw [arrayType_of_free free]
    have hget : (TypeGraph.mk (g.add (g.arrayOver e)).2.descriptors
        (g.arrays.insert e.first ⟨g.size⟩)).arrayType? e' =
        if e.Same e' then some ⟨g.size⟩ else g.arrayType? e' :=
      arrayType?_insert (g := (g.add (g.arrayOver e)).2) g.arrays e e' ⟨g.size⟩
    show (TypeGraph.mk _ _).arrayType? e' = some a ↔
      ∃ u, (g.add (g.arrayOver e)).2.element? a = some u ∧ u.Same e'
    rw [hget, element?_add_array rfl]
    by_cases ha : a.index = g.size
    · have haid : (⟨g.size⟩ : TypeId) = a := congrArg TypeId.mk ha.symm
      have hnew : g.arrayType? e' ≠ some a := by
        intro hfound
        obtain ⟨u, hu, -⟩ := (h e' a).mp hfound
        exact absurd ha (Nat.ne_of_lt (has_of_element? hu))
      rw [if_pos ha, haid]
      split
      · rename_i hsame
        simp [hsame]
      · rename_i hsame
        simp [hnew, hsame]
    · rw [if_neg ha, ← h e' a]
      split
      · rename_i hsame
        have hne : (⟨g.size⟩ : TypeId) ≠ a := fun heq => ha (heq ▸ rfl)
        rw [← arrayType?_of_same hsame, free]
        simp [hne]
      · exact Iff.rfl

/-- The array type that is there is found, and the graph stays as it is. -/
theorem Interned.arrayType_eq (h : g.Interned) (ha : g.element? a = some u) (hs : u.Same e) :
    g.arrayType e = (a, g) :=
  arrayType_of_found ((h e a).mpr ⟨u, ha, hs⟩)

/-- The elements of the array type over a type are of that type. -/
theorem Interned.element?_arrayType (h : g.Interned) (e : TypeId) :
    ∃ u, (g.arrayType e).2.element? (g.arrayType e).1 = some u ∧ u.Same e := by
  cases hget : g.arrayType? e with
  | some a =>
    rw [arrayType_of_found hget]
    exact (h e a).mp hget
  | none =>
    rw [arrayType_of_free hget]
    exact ⟨e, (element?_add_array rfl).trans (if_pos rfl), .refl e⟩

end TypeGraph

end Interop
