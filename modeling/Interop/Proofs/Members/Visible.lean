import Interop.Proofs.Host.Lineage

/-!
# Which declaration is reported

A type shows the public members of its lineage, the first one of each signature or name. The lineage
goes up the superclasses before it comes to the interfaces, so a type can stand before a subtype of
it, and then it hides what that subtype overrides.

* `Catalog.visibleMethods_eq`, `Catalog.visibleFields_eq`: what is reported, by the lineage.
* `TypeGraph.Prevails`: what a type declares is not hidden by the types above it.
* `Catalog.MostDerived`: this holds of all types in a lineage.
* `Host.Reachable.mostDerived_iff`: it holds, whatever is declared, just if subtypes come first in
  the lineage, and it always holds of the superclass chain.
-/

namespace Interop

/-! ## Declarations along a lineage -/

namespace Catalog

variable (c : Catalog) (t : TypeId)

/-- The public methods that a type declares itself. -/
def publicMethods : List Method :=
  (((c.members.get? t).map Members.methods).getD []).filter (·.modifiers.isPublic)

/-- The public fields that a type declares itself. -/
def publicFields : List Field :=
  (((c.members.get? t).map Members.fields).getD []).filter (·.modifiers.isPublic)

theorem visibleMethods_eq :
    c.visibleMethods t =
      firstBy Method.signature ((c.types.lineage t).flatMap c.publicMethods) := by
  rw [visibleMethods, declaredAlong, List.filter_flatMap]
  rfl

theorem visibleFields_eq :
    c.visibleFields t = firstBy Field.name ((c.types.lineage t).flatMap c.publicFields) := by
  rw [visibleFields, declaredAlong, List.filter_flatMap]
  rfl

end Catalog

namespace TypeGraph

variable {α β : Type} [DecidableEq β] {g : TypeGraph} {own : TypeId → List α} {key : α → β}
  {ty u v : TypeId} {before after : List TypeId}

/-- What is reported for `ty` from a type above `u` has a key that `u` does not declare. -/
def Prevails (g : TypeGraph) (own : TypeId → List α) (key : α → β) (ty u : TypeId) : Prop :=
  ∀ t a, ReportedFrom own key (g.lineage ty) t a → g.IsAbove t u → t ≠ u →
    ∀ b ∈ own u, key b ≠ key a

/-- No type of the lineage stands before a subtype of it. -/
def SubtypesFirst (g : TypeGraph) (ty : TypeId) : Prop :=
  (g.lineage ty).Pairwise fun u v => ¬ g.IsAbove u v

/-- A type that none of the types above it stands before is not hidden by them. -/
theorem prevails_of_split (hsplit : g.lineage ty = before ++ u :: after)
    (hb : ∀ v ∈ before, ¬ g.IsAbove v u) : g.Prevails own key ty u := by
  rintro t a ⟨before', after', hsplit', -, hfirst⟩ habove hne
  rcases List.append_eq_append_iff.mp (hsplit.symm.trans hsplit') with
    ⟨back, rfl, hback⟩ | ⟨back, rfl, hback⟩
  · cases back with
    | nil => exact absurd (List.cons.inj hback).1.symm hne
    | cons v back =>
      obtain ⟨rfl, -⟩ := List.cons.inj hback
      exact hfirst u (List.mem_append_right _ List.mem_cons_self)
  · cases back with
    | nil => exact absurd (List.cons.inj hback).1 hne
    | cons v back =>
      obtain ⟨rfl, -⟩ := List.cons.inj hback
      exact absurd habove (hb t (List.mem_append_right _ List.mem_cons_self))

theorem SubtypesFirst.prevails (h : g.SubtypesFirst ty) (hu : u ∈ g.lineage ty) :
    g.Prevails own key ty u := by
  obtain ⟨before, after, hsplit⟩ := List.append_of_mem hu
  refine prevails_of_split hsplit fun v hv => ?_
  rw [SubtypesFirst, hsplit, List.pairwise_append] at h
  exact h.2.2 v hv u List.mem_cons_self

/-- If just `u` and `v` declare an item and `u` comes first, it hides what `v` declares. -/
theorem not_prevails {a b : α} (hsplit : g.lineage ty = before ++ u :: after)
    (hnone : ∀ t ∈ before, own t = []) (hu : own u = [a]) (hv : own v = [b]) (hk : key b = key a)
    (habove : g.IsAbove u v) (hne : u ≠ v) : ¬ g.Prevails own key ty v := by
  intro h
  have hreport : ReportedFrom own key (g.lineage ty) u a := by
    refine ⟨before, after, hsplit, ?_, fun t ht b hb => ?_⟩
    · rw [hu]
      exact List.mem_cons_self
    · rw [hnone t ht] at hb
      cases hb
  exact h u a hreport habove hne b (hv ▸ List.mem_cons_self) hk

end TypeGraph

/-! ## Most derived declarations -/

namespace Catalog

variable {c : Catalog} {g : TypeGraph} {ty u v : TypeId}

/-- What `u` declares is not hidden by the types above it when `ty` is looked at. -/
structure KeepsOverrides (c : Catalog) (ty u : TypeId) : Prop where
  methods : c.types.Prevails c.publicMethods Method.signature ty u
  fields : c.types.Prevails c.publicFields Field.name ty u

/-- Of the types of a lineage that declare a public method of one signature or a public field of one
name, the one that is reported is not above another one. -/
def MostDerived (c : Catalog) (ty : TypeId) : Prop :=
  ∀ u ∈ c.types.lineage ty, c.KeepsOverrides ty u

/-- A public method and a public field. -/
def declaredItems : List Declaration :=
  [.method "text" [] none ⟨true, false, false, false, false⟩,
    .field "size" Builtin.object ⟨true, false, false, false, false⟩ .unchecked]

/-- `u` and `v` have a public method and a public field each, and no other type has members. -/
def declaredTwice (u v : TypeId) : TypeMap Members :=
  (TypeMap.empty.insert u (.ofDeclarations u declaredItems)).insert v
    (.ofDeclarations v declaredItems)

theorem publicMethods_declaredTwice (g : TypeGraph) (u v t : TypeId) :
    publicMethods ⟨g, declaredTwice u v⟩ t =
      if t = u ∨ t = v then [⟨"text", [], none, ⟨true, false, false, false, false⟩, t⟩]
      else [] := by
  unfold publicMethods declaredTwice
  rw [TypeMap.get?_insert, TypeMap.get?_insert, TypeMap.get?_empty]
  by_cases hv : v = t
  · rw [if_pos hv, if_pos (.inr hv.symm), hv]
    rfl
  · by_cases hu : u = t
    · rw [if_neg hv, if_pos hu, if_pos (.inl hu.symm), hu]
      rfl
    · rw [if_neg hv, if_neg hu, if_neg (not_or.mpr ⟨Ne.symm hu, Ne.symm hv⟩)]
      rfl

end Catalog

theorem pairwise_of_split {α : Type} {R : α → α → Prop} {xs : List α}
    (h : ∀ before a after, xs = before ++ a :: after → ∀ b ∈ after, R a b) : xs.Pairwise R := by
  induction xs with
  | nil => exact .nil
  | cons a xs ih =>
    refine .cons (h [] a xs rfl) (ih fun before b after hsplit => ?_)
    exact h (a :: before) b after (hsplit ▸ rfl)

namespace TypeGraph

variable {g : TypeGraph} {ty : TypeId}

/-- A type that stands before a subtype of it can hide what that one declares. -/
theorem WellFormed.subtypesFirst_iff (hg : g.WellFormed) (ht : g.Has ty) :
    g.SubtypesFirst ty ↔ ∀ members, Catalog.MostDerived ⟨g, members⟩ ty := by
  refine ⟨fun h members u hu => ⟨h.prevails hu, h.prevails hu⟩, fun h => ?_⟩
  have hnodup := hg.nodup_lineage ht
  refine pairwise_of_split fun before u after hsplit v hv habove => ?_
  -- let these two types declare the same
  rw [hsplit, List.nodup_append, List.nodup_cons] at hnodup
  obtain ⟨-, ⟨hua, -⟩, hdisjoint⟩ := hnodup
  have hne : u ≠ v := fun heq => hua (heq ▸ hv)
  have hnone : ∀ t ∈ before, ¬ (t = u ∨ t = v) := by
    rintro t ht (rfl | rfl)
    · exact hdisjoint t ht t List.mem_cons_self rfl
    · exact hdisjoint t ht t (List.mem_cons_of_mem _ hv) rfl
  have hmem : v ∈ g.lineage ty := by
    rw [hsplit]
    exact List.mem_append_right _ (List.mem_cons_of_mem _ hv)
  have methods := Catalog.publicMethods_declaredTwice g u v
  have hown := (methods u).trans (if_pos (.inl rfl))
  have hown' := (methods v).trans (if_pos (.inr rfl))
  exact not_prevails hsplit (fun t ht => (methods t).trans (if_neg (hnone t ht))) hown hown' rfl
    habove hne (h (Catalog.declaredTwice u v) v hmem).methods

end TypeGraph

namespace Host

variable {h : Host}

/-- **Most derived declarations.** What a type shows is reported from the first type of its lineage
that declares the signature or the name. That is a most derived declaration, whatever the types
declare, just if no type of the lineage stands before a subtype of it. For a type of the superclass
chain it is never hidden by the types above it. -/
theorem Reachable.mostDerived_iff (hr : h.Reachable) {ty : TypeId} (ht : h.types.Has ty) :
    (∀ m, m ∈ h.catalog.visibleMethods ty ↔
        ∃ t, ReportedFrom h.catalog.publicMethods Method.signature (h.types.lineage ty) t m) ∧
      (∀ f, f ∈ h.catalog.visibleFields ty ↔
        ∃ t, ReportedFrom h.catalog.publicFields Field.name (h.types.lineage ty) t f) ∧
      (h.types.SubtypesFirst ty ↔
        ∀ members, Catalog.MostDerived ⟨h.types, members⟩ ty) ∧
      ∀ u, h.types.OnChain u ty → h.catalog.KeepsOverrides ty u := by
  have hg := hr.sound.types
  refine ⟨fun m => ?_, fun f => ?_, hg.subtypesFirst_iff ht, fun u hu => ?_⟩
  · rw [Catalog.visibleMethods_eq]
    exact mem_firstBy_flatMap_iff
  · rw [Catalog.visibleFields_eq]
    exact mem_firstBy_flatMap_iff
  · obtain ⟨before, after, hsplit, hb⟩ := hg.lineage_split ht hu
    exact ⟨TypeGraph.prevails_of_split hsplit hb, TypeGraph.prevails_of_split hsplit hb⟩

/-- The diamond with the same method and field in both interfaces, the second of which overrides
what the first one declares. -/
def overridden : Host :=
  { diamond with catalog := ⟨diamond.types, Catalog.declaredTwice ⟨25⟩ ⟨26⟩⟩ }

theorem reachable_overridden : overridden.Reachable := by
  let first : Host := { diamond with catalog := ⟨diamond.types,
    diamond.catalog.members.insert ⟨25⟩ (.ofDeclarations ⟨25⟩ Catalog.declaredItems)⟩ }
  have named : first.Reachable :=
    reachable_diamond.step (.define ⟨25⟩ Catalog.declaredItems (by decide) (by decide) rfl)
  exact named.step (.define ⟨26⟩ Catalog.declaredItems (by decide) (by decide) rfl)

theorem unfolds_overridden :
    overridden.types.Unfolds [⟨28⟩] [⟨28⟩, ⟨27⟩, ⟨0⟩, ⟨25⟩, ⟨26⟩, ⟨25⟩] :=
  unfolds_diamond

/-- The walk goes up from the first class to the first interface before it comes to the second. -/
theorem lineage_overridden :
    overridden.types.lineage ⟨28⟩ = [⟨28⟩, ⟨27⟩, ⟨0⟩, ⟨25⟩, ⟨26⟩] := by
  rw [reachable_overridden.sound.types.lineage_eq (by decide) unfolds_overridden]
  rfl

theorem isAbove_overridden : overridden.types.IsAbove ⟨25⟩ ⟨26⟩ :=
  .up (by decide) (.refl _ ⟨25⟩)

/-- The second interface, which is below the first, comes after it. -/
theorem not_subtypesFirst_overridden : ¬ overridden.types.SubtypesFirst ⟨28⟩ := by
  intro h
  rw [TypeGraph.SubtypesFirst, lineage_overridden] at h
  simp only [List.pairwise_cons] at h
  exact h.2.2.2.1 ⟨26⟩ List.mem_cons_self isAbove_overridden

theorem mostDerived_iff_overridden :
    overridden.Reachable ∧ overridden.types.Has ⟨28⟩ ∧ ¬ overridden.types.SubtypesFirst ⟨28⟩ ∧
      (¬ ∀ members, Catalog.MostDerived ⟨overridden.types, members⟩ ⟨28⟩) ∧
      overridden.catalog.KeepsOverrides ⟨28⟩ ⟨27⟩ := by
  have ht : overridden.types.Has ⟨28⟩ := by decide
  obtain ⟨-, -, hiff, hchain⟩ := reachable_overridden.mostDerived_iff ht
  exact ⟨reachable_overridden, ht, not_subtypesFirst_overridden,
    fun hall => not_subtypesFirst_overridden (hiff.mpr hall), hchain ⟨27⟩ (.up rfl .here)⟩

/-- The last class shows the method and the field of the first interface, although the second one is
in its lineage too and overrides them. -/
theorem overridden_reported :
    overridden.Reachable ∧ overridden.types.Has ⟨28⟩ ∧
      (overridden.catalog.visibleMethods ⟨28⟩).map Method.declaring = [⟨25⟩] ∧
      (overridden.catalog.visibleFields ⟨28⟩).map Field.declaring = [⟨25⟩] ∧
      ¬ overridden.catalog.MostDerived ⟨28⟩ := by
  refine ⟨reachable_overridden, by decide, ?_, ?_, fun h => ?_⟩
  · rw [Catalog.visibleMethods_eq]
    show List.map _ (firstBy _ ((overridden.types.lineage ⟨28⟩).flatMap _)) = _
    rw [lineage_overridden]
    rfl
  · rw [Catalog.visibleFields_eq]
    show List.map _ (firstBy _ ((overridden.types.lineage ⟨28⟩).flatMap _)) = _
    rw [lineage_overridden]
    rfl
  · have hmem : (⟨26⟩ : TypeId) ∈ overridden.types.lineage ⟨28⟩ := by
      rw [lineage_overridden]
      decide
    have hsplit : overridden.types.lineage ⟨28⟩ = [⟨28⟩, ⟨27⟩, ⟨0⟩] ++ ⟨25⟩ :: [⟨26⟩] :=
      lineage_overridden
    have methods := Catalog.publicMethods_declaredTwice diamond.types ⟨25⟩ ⟨26⟩
    exact TypeGraph.not_prevails hsplit (by decide) (methods ⟨25⟩) (methods ⟨26⟩) rfl
      isAbove_overridden (by decide) (h ⟨26⟩ hmem).methods

end Host

end Interop
