import Interop.Proofs.Host.Run
import Interop.Proofs.Surface.Part
import Interop.Proofs.Types.Lineage
import Mathlib.Data.List.Basic
import Mathlib.Data.List.Find

/-!
# What a projection reads

A part of a surface shows the members of certain types, its sources, and nothing else of a catalog
can change what it shows.

* `Part.sources`: the lineage of the type, or the type itself for its constructors.
* `Catalog.project_congr`: a part is the same in two catalogs that agree on its sources.
-/

namespace Interop

/-- The types whose members a part of a type shows. -/
def Part.sources (g : TypeGraph) (t : TypeId) : Part → List TypeId
  | .constructors => [t]
  | _ => g.lineage t

namespace Catalog

variable {c c' : Catalog} {t : TypeId}

theorem declaredAlong_congr {α : Type} (kind : Members → List α)
    (hl : c'.types.lineage t = c.types.lineage t)
    (hm : ∀ u ∈ c.types.lineage t, c'.members.get? u = c.members.get? u) :
    c'.declaredAlong kind t = c.declaredAlong kind t := by
  rw [declaredAlong, hl]
  exact List.flatMap_congr fun u hu => by rw [hm u hu]

/-- The nested types that are found are named by the members. -/
theorem mem_mentions_of_visibleNested {u : TypeId} (hu : u ∈ c.visibleNested t) :
    ∃ v m, c.members.get? v = some m ∧ u ∈ m.mentions := by
  obtain ⟨n, hn, rfl⟩ := List.mem_map.mp (mem_firstBy_id.mp hu)
  obtain ⟨v, -, hv⟩ := List.mem_flatMap.mp (List.mem_of_mem_filter hn)
  cases hm : c.members.get? v with
  | none => simp [hm] at hv
  | some m =>
    rw [hm] at hv
    exact ⟨v, m, hm, List.mem_append_right _ (List.mem_map_of_mem hv)⟩

/-- **Sources.** A part is the same if the sources have the same members and the nested types the
same names. -/
theorem project_congr (p : Part) (hl : c'.types.lineage t = c.types.lineage t)
    (hm : ∀ u ∈ p.sources c.types t, c'.members.get? u = c.members.get? u)
    (hn : ∀ u ∈ c.visibleNested t, c'.types.name u = c.types.name u) :
    c'.project t p = c.project t p := by
  cases p with
  | fields =>
    have hfields : c'.visibleFields t = c.visibleFields t := by
      rw [visibleFields, declaredAlong_congr _ hl hm]
      rfl
    rw [project, fieldTable, hfields]
    rfl
  | methods =>
    have hmethods : c'.visibleMethods t = c.visibleMethods t := by
      rw [visibleMethods, declaredAlong_congr _ hl hm]
      rfl
    rw [project, methodTable, hmethods]
    rfl
  | constructors =>
    rw [project, constructors?, visibleConstructors, hm t List.mem_cons_self]
    rfl
  | nested =>
    have hnested : c'.visibleNested t = c.visibleNested t := by
      rw [visibleNested, declaredAlong_congr _ hl hm]
      rfl
    have hkey : ∀ u ∈ c.visibleNested t,
        unqualified (c'.types.name u) = unqualified (c.types.name u) :=
      fun u hu => by rw [hn u hu]
    rw [project, nestedTable, hnested, List.map_congr_left hkey]
    refine congrArg (NameTable.build _) (funext fun name => List.find?_congr fun u hu => ?_)
    simp only [hkey u (List.mem_reverse.mp hu)]

end Catalog

end Interop
