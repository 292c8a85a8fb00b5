import Interop.Types.Graph

/-!
# Graphs that grow

A type graph only gains types, and what it gains refers to types that are there already.

* `TypeGraph.GrowsTo`: the types of a graph keep their descriptors in a later one.
* `TypeGraph.WellFormed`: the known types are in place, and every supertype and element type is
  older than the type that names it. It holds of `TypeGraph.initial` (`wellFormed_initial`), and a
  new class, interface or array keeps it as long as it is made from types of the graph.
-/

namespace Interop

namespace TypeGraph

/-- `t` is a type of the graph. -/
def Has (g : TypeGraph) (t : TypeId) : Prop := t.index < g.size

instance (g : TypeGraph) (t : TypeId) : Decidable (g.Has t) :=
  inferInstanceAs (Decidable (t.index < g.size))

/-- The types of `g` have the same descriptors in `g'`. -/
def GrowsTo (g g' : TypeGraph) : Prop := ∀ t, g.Has t → g'.descriptor? t = g.descriptor? t

variable {g g' g'' : TypeGraph} {t u : TypeId}

theorem descriptor?_isSome : (g.descriptor? t).isSome ↔ g.Has t := by
  simp [descriptor?, Has, size]

theorem GrowsTo.refl (g : TypeGraph) : g.GrowsTo g := fun _ _ => rfl

theorem GrowsTo.has (h : g.GrowsTo g') (ht : g.Has t) : g'.Has t := by
  rw [← descriptor?_isSome, h t ht, descriptor?_isSome]
  exact ht

theorem GrowsTo.trans (h : g.GrowsTo g') (h' : g'.GrowsTo g'') : g.GrowsTo g'' := by
  intro t ht
  rw [h' t (h.has ht), h t ht]

theorem GrowsTo.name (h : g.GrowsTo g') (ht : g.Has t) : g'.name t = g.name t := by
  simp only [TypeGraph.name, h t ht]

theorem GrowsTo.element? (h : g.GrowsTo g') (ht : g.Has t) : g'.element? t = g.element? t := by
  simp only [TypeGraph.element?, shape?, h t ht]

theorem GrowsTo.supertypes (h : g.GrowsTo g') (ht : g.Has t) :
    g'.supertypes t = g.supertypes t := by
  simp only [TypeGraph.supertypes, h t ht]

/-- Only a type of the graph has an element type. -/
theorem has_of_element? {e : TypeId} (h : g.element? t = some e) : g.Has t := by
  rw [← descriptor?_isSome]
  unfold element? shape? at h
  cases hd : g.descriptor? t with
  | none => simp [hd] at h
  | some d => rfl

/-- Only a type of the graph has supertypes. -/
theorem has_of_mem_supertypes (h : u ∈ g.supertypes t) : g.Has t := by
  rw [← descriptor?_isSome]
  unfold supertypes at h
  cases hd : g.descriptor? t with
  | none => simp [hd] at h
  | some d => rfl

/-! ## Well-formed graphs -/

/-- The known types are in place, and the types that a type names are older than it. -/
structure WellFormed (g : TypeGraph) : Prop where
  known : initial.GrowsTo g
  supertypes_older : ∀ t u, u ∈ g.supertypes t → u.index < t.index
  element_older : ∀ t e, g.element? t = some e → e.index < t.index

/-- Whether the types that the known types name are older than they are. -/
private theorem initial_older : ∀ i < initial.size,
    (∀ u ∈ initial.supertypes ⟨i⟩, u.index < i) ∧ ∀ e ∈ initial.element? ⟨i⟩, e.index < i := by
  decide

theorem wellFormed_initial : initial.WellFormed where
  known := .refl _
  supertypes_older t u h := (initial_older t.index (has_of_mem_supertypes h)).1 u h
  element_older t e h := (initial_older t.index (has_of_element? h)).2 e h

/-- The root class is a type of every well-formed graph. -/
theorem WellFormed.has_object (h : g.WellFormed) : g.Has Builtin.object := h.known.has (by decide)

/-! ## New types -/

theorem descriptor?_add (g : TypeGraph) (d : Descriptor) (t : TypeId) :
    (g.add d).2.descriptor? t = if t.index = g.size then some d else g.descriptor? t :=
  Array.getElem?_push

theorem growsTo_add (g : TypeGraph) (d : Descriptor) : g.GrowsTo (g.add d).2 := by
  intro t ht
  rw [descriptor?_add, if_neg (Nat.ne_of_lt ht)]

theorem WellFormed.add (h : g.WellFormed) {d : Descriptor} (hs : ∀ u ∈ d.supertypes, g.Has u)
    (he : ∀ e, d.shape = .array e → g.Has e) : (g.add d).2.WellFormed where
  known := h.known.trans (growsTo_add g d)
  supertypes_older t u hu := by
    unfold TypeGraph.supertypes at hu
    rw [descriptor?_add] at hu
    split at hu
    · rename_i ht
      rw [ht]
      exact hs u hu
    · exact h.supertypes_older t u hu
  element_older t e ht := by
    unfold TypeGraph.element? shape? at ht
    rw [descriptor?_add] at ht
    split at ht
    · rename_i shape hshape
      split at hshape
      · rename_i hti
        rw [hti]
        cases ht
        exact he e (by simpa using hshape)
      · cases ht
        exact h.element_older t e (by simp [TypeGraph.element?, shape?, hshape])
    · cases ht

/-- Well-formedness does not read the table of array types. -/
theorem WellFormed.withArrays (h : g.WellFormed) (m : TypeMap TypeId) :
    WellFormed { g with arrays := m } :=
  ⟨h.known, h.supertypes_older, h.element_older⟩

theorem has_add (g : TypeGraph) (d : Descriptor) : (g.add d).2.Has (g.add d).1 := by
  show g.size < (g.add d).2.size
  simp [add, size]

theorem descriptor?_add_self (g : TypeGraph) (d : Descriptor) :
    (g.add d).2.descriptor? (g.add d).1 = some d := by
  rw [descriptor?_add]
  exact if_pos rfl

theorem supertypes_add (g : TypeGraph) (d : Descriptor) :
    (g.add d).2.supertypes (g.add d).1 = d.supertypes := by
  rw [supertypes, descriptor?_add_self]
  rfl

/-- A class is no array type. -/
theorem element?_declareClass (g : TypeGraph) (name : String) (superclass : Option TypeId)
    (interfaces : List TypeId) :
    (g.declareClass name superclass interfaces).2.element?
      (g.declareClass name superclass interfaces).1 = none := by
  rw [declareClass, element?, shape?, descriptor?_add_self]
  rfl

theorem growsTo_declareClass (g : TypeGraph) (name : String) (superclass : Option TypeId)
    (interfaces : List TypeId) : g.GrowsTo (g.declareClass name superclass interfaces).2 :=
  growsTo_add g _

theorem growsTo_declareInterface (g : TypeGraph) (name : String) (extended : List TypeId) :
    g.GrowsTo (g.declareInterface name extended).2 :=
  growsTo_add g _

theorem growsTo_arrayType (g : TypeGraph) (element : TypeId) :
    g.GrowsTo (g.arrayType element).2 := by
  unfold arrayType
  split
  · exact .refl g
  · exact growsTo_add g _

theorem WellFormed.declareClass (h : g.WellFormed) {name : String} {superclass : Option TypeId}
    {interfaces : List TypeId} (hs : ∀ u ∈ superclass, g.Has u) (hi : ∀ u ∈ interfaces, g.Has u) :
    (g.declareClass name superclass interfaces).2.WellFormed := by
  refine h.add ?_ (fun e he => by cases he)
  intro u hu
  simp only [Descriptor.supertypes, Option.toList_some, List.singleton_append,
    List.mem_cons] at hu
  rcases hu with rfl | hu
  · cases superclass with
    | none => exact h.has_object
    | some s => exact hs s rfl
  · exact hi u hu

theorem WellFormed.declareInterface (h : g.WellFormed) {name : String} {extended : List TypeId}
    (he : ∀ u ∈ extended, g.Has u) : (g.declareInterface name extended).2.WellFormed :=
  h.add (by simpa [Descriptor.supertypes] using he) (fun e he => by cases he)

theorem WellFormed.arrayType (h : g.WellFormed) {element : TypeId} (he : g.Has element) :
    (g.arrayType element).2.WellFormed := by
  unfold TypeGraph.arrayType
  split
  · exact h
  · refine (h.add ?_ ?_).withArrays _
    · intro u hu
      simp only [Descriptor.supertypes, Option.toList_some, List.append_nil,
        List.mem_singleton] at hu
      exact hu ▸ h.has_object
    · intro e hs
      cases hs
      exact he

end TypeGraph

end Interop
