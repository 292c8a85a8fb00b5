import Interop.Proofs.Surface.NameTable
import Interop.Proofs.Surface.Request
import Mathlib.Data.List.DropRight
import Mathlib.Data.List.Nodup

/-!
# Nested types by name

A surface finds a nested type under the last part of its name. Of several types with one last part
it finds the last one, which is an inherited one if there is any: here own declarations do not hide
what is inherited, as they do among fields and methods.

* `IsLastPart`: the part of a name after its last separator. It is what `unqualified` gives
  (`unqualified_eq_iff`).
* `Catalog.get?_nestedTable_eq_some_iff`: what a table of nested types finds.
* `Host.Awaits.nested_found_iff`: what a surface finds. It is the first of the types just if there
  is one of the name at most.
* `Host.sortedMap`: a class whose own nested type is not found (`Host.sortedMap_inherited`).
-/

namespace Interop

/-! ## The last part of a name -/

/-- `part` is what comes after the last separator of `name`, or all of it if there is none. -/
structure IsLastPart (name part : String) : Prop where
  whole : ∀ c ∈ part.toList, isSeparator c = false
  rest : name.toList = part.toList ∨
    ∃ outer c, isSeparator c = true ∧ name.toList = outer ++ c :: part.toList

/-- The longest run of items at the end of a list with the property, by where it begins. -/
theorem rtakeWhile_eq_iff {α : Type} {p : α → Bool} {xs run : List α} :
    xs.rtakeWhile p = run ↔
      (∀ a ∈ run, p a = true) ∧ (xs = run ∨ ∃ outer a, p a = false ∧ xs = outer ++ a :: run) := by
  constructor
  · rintro rfl
    refine ⟨fun a ha => List.mem_rtakeWhile_imp ha, ?_⟩
    have hsplit : xs = xs.rdropWhile p ++ xs.rtakeWhile p :=
      List.rdropWhile_append_rtakeWhile.symm
    by_cases hnil : xs.rdropWhile p = []
    · rw [hnil] at hsplit
      exact .inl hsplit
    · refine .inr ⟨(xs.rdropWhile p).dropLast, (xs.rdropWhile p).getLast hnil,
        by simpa using List.rdropWhile_last_not p xs hnil, ?_⟩
      rw [List.append_cons, List.dropLast_append_getLast]
      exact hsplit
  · rintro ⟨hall, rfl | ⟨outer, a, ha, rfl⟩⟩
    · exact List.rtakeWhile_eq_self_iff.mpr hall
    · induction run using List.reverseRecOn with
      | nil => exact List.rtakeWhile_concat_neg _ _ _ (by simp [ha])
      | append_singleton run b ih =>
        rw [← List.cons_append, ← List.append_assoc,
          List.rtakeWhile_concat_pos _ _ _ (hall b (by simp)),
          ih fun c hc => hall c (List.mem_append_left _ hc)]

/-- **Last parts.** The unqualified name is the one last part of a name. -/
theorem unqualified_eq_iff {name part : String} :
    unqualified name = part ↔ IsLastPart name part := by
  have hrun : unqualified name = part ↔
      (name.toList.rtakeWhile fun c => !isSeparator c) = part.toList :=
    String.ofList_eq
  rw [hrun, rtakeWhile_eq_iff]
  simp only [Bool.not_eq_true', Bool.not_eq_false']
  exact ⟨fun h => ⟨h.1, h.2⟩, fun h => ⟨h.whole, h.rest⟩⟩

/-! ## One item at most -/

section One

variable {α : Type} {P : α → Prop} {xs : List α} {a b : α}

/-- An item that is the first one and the last one with the property is the only one. -/
theorem IsFirst.eq_of_isLast (hn : xs.Nodup) (hf : IsFirst P xs a) (hl : IsLast P xs a)
    (hb : b ∈ xs) (hp : P b) : b = a := by
  obtain ⟨before, after, rfl, -, hbefore⟩ := hf
  obtain ⟨before', after', hsplit, -, hafter⟩ := hl
  -- there is one place for `a`
  have hplace := (List.nodup_cons.mp (List.nodup_middle.mp hn)).1
  rw [List.mem_append, not_or] at hplace
  obtain ⟨-, -, rfl⟩ := (List.append_cons_inj_of_notMem hplace.1 hplace.2).mp hsplit
  rcases List.mem_append.mp hb with hb | hb
  · exact absurd hp (hbefore b hb)
  · rcases List.mem_cons.mp hb with rfl | hb
    · rfl
    · exact absurd hp (hafter b hb)

/-- If no other item has the property, none before or after it has. -/
theorem not_of_only {before after : List α} (hn : (before ++ a :: after).Nodup)
    (hone : ∀ b ∈ before ++ a :: after, P b → a = b) : ∀ b ∈ before ++ after, ¬ P b := by
  have hplace := (List.nodup_cons.mp (List.nodup_middle.mp hn)).1
  intro b hb hp
  have hmem : b ∈ before ++ a :: after := by
    rw [List.mem_append] at hb ⊢
    exact hb.imp_right (List.mem_cons_of_mem a)
  exact hplace (hone b hmem hp ▸ hb)

/-- In a list without repetitions, the last item with the property is the first one just if there is
one at most. -/
theorem isLast_iff_isFirst (hn : xs.Nodup) :
    (∀ a, IsLast P xs a ↔ IsFirst P xs a) ↔ ∀ a ∈ xs, ∀ b ∈ xs, P a → P b → a = b := by
  constructor
  · intro h a ha b hb hpa hpb
    obtain ⟨w, hw⟩ := exists_isFirst ha hpa
    have hl := (h w).mpr hw
    rw [hw.eq_of_isLast hn hl ha hpa, hw.eq_of_isLast hn hl hb hpb]
  · intro hone a
    have only : ∀ {before after}, xs = before ++ a :: after → P a →
        ∀ b ∈ before ++ after, ¬ P b := by
      rintro before after rfl ha
      exact not_of_only hn fun b hb hp => hone a (by simp) b hb ha hp
    constructor
    · rintro ⟨before, after, hsplit, ha, -⟩
      exact ⟨before, after, hsplit, ha, fun b hb => only hsplit ha b (List.mem_append_left _ hb)⟩
    · rintro ⟨before, after, hsplit, ha, -⟩
      exact ⟨before, after, hsplit, ha, fun b hb => only hsplit ha b (List.mem_append_right _ hb)⟩

end One

/-! ## What is found -/

/-- The last part of the name of `u` is `name`. -/
def TypeGraph.Named (g : TypeGraph) (name : String) (u : TypeId) : Prop :=
  IsLastPart (g.name u) name

namespace Catalog

variable {c : Catalog} {t u : TypeId} {name : String}

theorem get?_nestedTable :
    (c.nestedTable t).get? name =
      (c.visibleNested t).reverse.find? fun u => unqualified (c.types.name u) = name := by
  refine NameTable.get?_build_of_mem fun u hu => ?_
  have hmem : u ∈ c.visibleNested t := List.mem_reverse.mp (List.mem_of_find?_eq_some hu)
  have hname : unqualified (c.types.name u) = name := by simpa using List.find?_some hu
  exact hname ▸ List.mem_map_of_mem hmem

/-- **Tables of nested types.** The last type of a name is found. -/
theorem get?_nestedTable_eq_some_iff :
    (c.nestedTable t).get? name = some u ↔
      IsLast (c.types.Named name) (c.visibleNested t) u := by
  rw [get?_nestedTable, find?_eq_some_iff_isFirst, isFirst_reverse]
  simp only [unqualified_eq_iff]
  rfl

theorem get?_nestedTable_eq_none_iff :
    (c.nestedTable t).get? name = none ↔ ∀ u ∈ c.visibleNested t, ¬ c.types.Named name u := by
  simp only [get?_nestedTable, List.find?_eq_none, List.mem_reverse, decide_eq_true_eq,
    unqualified_eq_iff, TypeGraph.Named]

end Catalog

namespace Host

variable {h : Host} {s : SurfaceId} {t : TypeId}

/-- **Nested types by name.** A surface that has not been asked for nested types finds under a name
the last visible nested type with this last part, and none if there is none. It is the first one
just if no two of them have this last part. In every later host the surface finds the same. -/
theorem Awaits.nested_found_iff (ha : h.Awaits s t .nested) (name : String) :
    (∀ u, (h.nested? s name).1 = some u ↔
        IsLast (h.types.Named name) (h.catalog.visibleNested t) u) ∧
      ((h.nested? s name).1 = none ↔
        ∀ u ∈ h.catalog.visibleNested t, ¬ h.types.Named name u) ∧
      ((∀ u, (h.nested? s name).1 = some u ↔
          IsFirst (h.types.Named name) (h.catalog.visibleNested t) u) ↔
        ∀ u ∈ h.catalog.visibleNested t, ∀ v ∈ h.catalog.visibleNested t,
          h.types.Named name u → h.types.Named name v → u = v) ∧
      ∀ other h', (h.nested? s other).2.LeadsTo h' →
        h'.nested? s name = ((h.nested? s name).1, h') := by
  have hfound : (h.nested? s name).1 = (h.catalog.nestedTable t).get? name := by
    rw [nested?_eq, ha.ask_fst]
    rfl
  have hlast : ∀ u, (h.nested? s name).1 = some u ↔
      IsLast (h.types.Named name) (h.catalog.visibleNested t) u := by
    intro u
    rw [hfound]
    exact Catalog.get?_nestedTable_eq_some_iff
  refine ⟨hlast, ?_, ?_, fun other h' hl => ?_⟩
  · rw [hfound]
    exact Catalog.get?_nestedTable_eq_none_iff
  · simp only [hlast]
    exact isLast_iff_isFirst (nodup_firstBy_id _)
  · rw [nested?_eq h', ha.ask_later hl]
    rfl

/-! ## A nested type that is hidden by an inherited one -/

/-- A public nested type. -/
def publicNested (u : TypeId) : List Declaration :=
  [.nested u ⟨true, false, false, false, false⟩]

/-- A new host with a class and a subclass, and two classes whose names have the same last part. -/
def maps : Host :=
  let (_, h) := initial.declareClass "Map$Entry" none []
  let (_, h) := h.declareClass "SortedMap$Entry" none []
  let (map, h) := h.declareClass "Map" none []
  (h.declareClass "SortedMap" map []).2

/-- Each of the two classes has a public nested type of its own. -/
def entries : TypeMap Members :=
  (TypeMap.empty.insert ⟨27⟩ (.ofDeclarations ⟨27⟩ (publicNested ⟨25⟩))).insert ⟨28⟩
    (.ofDeclarations ⟨28⟩ (publicNested ⟨26⟩))

/-- The host after the nested types have been declared. -/
def sortedMap : Host := { maps with catalog := ⟨maps.types, entries⟩ }

theorem reachable_sortedMap : sortedMap.Reachable := by
  have entry := Reachable.step .initial (.declareClass "Map$Entry" none [] nofun nofun)
  have sortedEntry := entry.step (.declareClass "SortedMap$Entry" none [] nofun nofun)
  have map := sortedEntry.step (.declareClass "Map" none [] nofun nofun)
  have sorted := map.step (.declareClass "SortedMap" (some ⟨27⟩) [] (by decide) nofun)
  have first := sorted.step (step_withDeclared (t := ⟨27⟩) (by decide)
    (show ∀ d ∈ publicNested ⟨25⟩, _ by decide) rfl rfl)
  exact first.step (step_withDeclared (t := ⟨28⟩) (by decide)
    (show ∀ d ∈ publicNested ⟨26⟩, _ by decide) rfl rfl)

/-- The nested types that a type declares itself. -/
theorem nested_entries (u : TypeId) :
    ((entries.get? u).map Members.nested).getD [] =
      if u = ⟨28⟩ then [⟨⟨26⟩, ⟨true, false, false, false, false⟩⟩]
      else if u = ⟨27⟩ then [⟨⟨25⟩, ⟨true, false, false, false, false⟩⟩]
      else [] := by
  rw [entries, TypeMap.get?_insert, TypeMap.get?_insert, TypeMap.get?_empty]
  simp only [eq_comm (a := u)]
  split
  · rfl
  · split <;> rfl

theorem unfolds_map : sortedMap.types.Unfolds [⟨27⟩] [⟨27⟩, ⟨0⟩] :=
  .single (.single .nil)

theorem visibleNested_map : sortedMap.catalog.visibleNested ⟨27⟩ = [⟨25⟩] := by
  have hl : maps.types.lineage ⟨27⟩ = [⟨27⟩, ⟨0⟩] :=
    reachable_sortedMap.sound.types.lineage_eq (by decide) unfolds_map
  simp only [sortedMap, Catalog.visibleNested, Catalog.declaredAlong, hl, nested_entries]
  rfl

theorem visibleNested_sortedMap : sortedMap.catalog.visibleNested ⟨28⟩ = [⟨26⟩, ⟨25⟩] := by
  have derived : sortedMap.types.Unfolds [⟨28⟩] [⟨28⟩, ⟨27⟩, ⟨0⟩] := .single unfolds_map
  have hl : maps.types.lineage ⟨28⟩ = [⟨28⟩, ⟨27⟩, ⟨0⟩] :=
    reachable_sortedMap.sound.types.lineage_eq (by decide) derived
  simp only [sortedMap, Catalog.visibleNested, Catalog.declaredAlong, hl, nested_entries]
  rfl

theorem named_entry {u : TypeId} (hu : u = ⟨25⟩ ∨ u = ⟨26⟩) :
    sortedMap.types.Named "Entry" u := by
  rcases hu with rfl | rfl
  · exact unqualified_eq_iff.mp (by decide)
  · exact unqualified_eq_iff.mp (by decide)

/-- A surface of the class finds its nested type, which is the first one. -/
theorem nested_found_map :
    let h := (sortedMap.newSurface ⟨27⟩).2
    let s := (sortedMap.newSurface ⟨27⟩).1
    h.Reachable ∧ h.Awaits s ⟨27⟩ .nested ∧
      IsFirst (h.types.Named "Entry") (h.catalog.visibleNested ⟨27⟩) ⟨25⟩ ∧
      (h.nested? s "Entry").1 = some ⟨25⟩ ∧ (h.nested? s "Node").1 = none := by
  intro h s
  have ha : h.Awaits s ⟨27⟩ .nested := sortedMap.awaits_newSurface ⟨27⟩ .nested
  have hvisible : h.catalog.visibleNested ⟨27⟩ = [⟨25⟩] := visibleNested_map
  have hfirst : IsFirst (h.types.Named "Entry") (h.catalog.visibleNested ⟨27⟩) ⟨25⟩ :=
    ⟨[], [], hvisible, named_entry (.inl rfl), nofun⟩
  refine ⟨reachable_sortedMap.step (.newSurface ⟨27⟩ (by decide)), ha, hfirst, ?_, ?_⟩
  · exact ((ha.nested_found_iff "Entry").1 ⟨25⟩).mpr
      ⟨[], [], hvisible, named_entry (.inl rfl), nofun⟩
  · refine (ha.nested_found_iff "Node").2.1.mpr fun u hu hnamed => ?_
    rw [hvisible, List.mem_singleton] at hu
    subst hu
    exact absurd (unqualified_eq_iff.mpr hnamed) (by decide)

/-- A surface of the subclass finds the nested type that is inherited. The first one of the name is
that of the subclass. -/
theorem sortedMap_inherited :
    let h := (sortedMap.newSurface ⟨28⟩).2
    let s := (sortedMap.newSurface ⟨28⟩).1
    h.Reachable ∧ h.Awaits s ⟨28⟩ .nested ∧ h.catalog.visibleNested ⟨28⟩ = [⟨26⟩, ⟨25⟩] ∧
      IsFirst (h.types.Named "Entry") (h.catalog.visibleNested ⟨28⟩) ⟨26⟩ ∧
      (h.nested? s "Entry").1 = some ⟨25⟩ := by
  intro h s
  have ha : h.Awaits s ⟨28⟩ .nested := sortedMap.awaits_newSurface ⟨28⟩ .nested
  have hvisible : h.catalog.visibleNested ⟨28⟩ = [⟨26⟩, ⟨25⟩] := visibleNested_sortedMap
  refine ⟨reachable_sortedMap.step (.newSurface ⟨28⟩ (by decide)), ha, hvisible,
    ⟨[], [⟨25⟩], hvisible, named_entry (.inr rfl), nofun⟩, ?_⟩
  have hlast : IsLast (h.catalog.types.Named "Entry") (h.catalog.visibleNested ⟨28⟩) ⟨25⟩ :=
    ⟨[⟨26⟩], [], hvisible, named_entry (.inl rfl), nofun⟩
  rw [nested?_eq, ha.ask_fst]
  exact Catalog.get?_nestedTable_eq_some_iff.mpr hlast

end Host

end Interop
