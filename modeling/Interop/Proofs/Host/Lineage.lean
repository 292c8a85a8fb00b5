import Interop.Proofs.Host.Distance
import Interop.Proofs.Types.Lineage

/-!
# Lineages and distances

The lineage of a type and the distances from it are found by two walks that know nothing of each
other. Both go up the same edges, so they find the same types, as long as no way up is so long that
its length is cut at the cap. No way up is longer than the lineage has types.

* `TypeGraph.Unfolds.unique`: the walk without marks has one outcome.
* `TypeGraph.WellFormed.lt_length_of_path`: how long a path can be.
* `TypeGraph.WellFormed.mem_lineage_iff_distance`: the lineage by the distances.
* `Host.Reachable.lineage_exact`: what a lineage is, in every reachable host.
-/

namespace Interop

namespace TypeGraph

variable {g : TypeGraph} {t u : TypeId} {work trace trace' : List TypeId} {n : Nat}

theorem Unfolds.unique (hw : g.Unfolds work trace) (hw' : g.Unfolds work trace') :
    trace = trace' := by
  induction hw generalizing trace' with
  | nil =>
    cases hw'
    rfl
  | cons _ _ ihs iho =>
    cases hw' with
    | cons supers others => rw [ihs supers, iho others]

/-! ## Lengths of paths -/

/-- The types of a path. They get older on the way up, so they are distinct. -/
theorem WellFormed.exists_types_of_path (hg : g.WellFormed) (path : g.Path u t n) :
    ∃ types : List TypeId, types.length = n + 1 ∧ types.Nodup ∧ ∀ v ∈ types, g.IsAbove v t := by
  induction path with
  | here =>
    exact ⟨[u], rfl, by simp, fun v hv => List.mem_singleton.mp hv ▸ .refl g u⟩
  | @up t parent n edge _ ih =>
    obtain ⟨types, hlen, hnodup, habove⟩ := ih
    have older := hg.supertypes_older t parent edge
    have hnew : t ∉ types := by
      intro ht
      have hle := hg.index_le_of_isAbove (habove t ht)
      omega
    refine ⟨t :: types, by rw [List.length_cons, hlen], List.nodup_cons.mpr ⟨hnew, hnodup⟩, ?_⟩
    exact List.forall_mem_cons.mpr ⟨.refl g t, fun v hv => (habove v hv).up edge⟩

/-- A path has fewer edges than the lineage has types. -/
theorem WellFormed.lt_length_of_path (hg : g.WellFormed) (ht : g.Has t) (path : g.Path u t n) :
    n < (g.lineage t).length := by
  obtain ⟨types, hlen, hnodup, habove⟩ := hg.exists_types_of_path path
  have hle := hnodup.length_le_of_subset fun v hv => (hg.mem_lineage_iff ht).mpr (habove v hv)
  omega

/-- A type that is not too far away is one of the lineage. -/
theorem WellFormed.mem_lineage_of_distance (hg : g.WellFormed) (ht : g.Has t)
    (hd : g.distance u (some t) < unreachable) : u ∈ g.lineage t :=
  (hg.mem_lineage_iff ht).mpr ⟨_, hg.path_of_distance_lt hd⟩

/-- **Two walks.** A lineage that is no longer than the cap has just the types that distances below
the cap lead to. -/
theorem WellFormed.mem_lineage_iff_distance (hg : g.WellFormed) (ht : g.Has t)
    (hlen : (g.lineage t).length ≤ unreachable) :
    u ∈ g.lineage t ↔ g.distance u (some t) < unreachable := by
  refine ⟨fun hu => ?_, hg.mem_lineage_of_distance ht⟩
  obtain ⟨n, path⟩ := (hg.mem_lineage_iff ht).mp hu
  have hle := hg.distance_le_of_path path
  have hlt := hg.lt_length_of_path ht path
  omega

theorem WellFormed.head?_lineage (hg : g.WellFormed) (ht : g.Has t) :
    (g.lineage t).head? = some t := by
  obtain ⟨trace, hw⟩ := hg.exists_unfolds [t]
  rw [hg.lineage_eq ht hw]
  cases hw
  rfl

end TypeGraph

namespace Host

variable {h : Host} {t : TypeId}

/-- **Lineages.** The lineage of a type has the type itself first and just the types that edges to
superclasses and interfaces lead up to, each once. They are in the order of their first occurrences
in the walk that has no marks. If there are at most `0x10000` of them, they are just the types that
the type can stand for, whatever distances were measured before. -/
theorem Reachable.lineage_exact (hr : h.Reachable) (ht : h.types.Has t) :
    (∀ u, u ∈ h.types.lineage t ↔ h.types.IsAbove u t) ∧ (h.types.lineage t).Nodup ∧
      (h.types.lineage t).head? = some t ∧
      (∃! trace, h.types.Unfolds [t] trace) ∧
      (∀ trace, h.types.Unfolds [t] trace → h.types.lineage t = trace.eraseDups) ∧
      ((h.types.lineage t).length ≤ 0x10000 → ∀ u,
        (h.types.admits u t = true ↔ u ∈ h.types.lineage t) ∧
        ((h.distance u (some t)).1 < unreachable ↔ u ∈ h.types.lineage t)) := by
  have hg := hr.sound.types
  obtain ⟨trace, hw⟩ := hg.exists_unfolds [t]
  refine ⟨fun u => hg.mem_lineage_iff ht, hg.nodup_lineage ht, hg.head?_lineage ht,
    ⟨trace, hw, fun trace' hw' => hw'.unique hw⟩, fun trace' hw' => ?_, fun hlen u => ?_⟩
  · rw [hg.lineage_eq ht hw', firstBy_id_eq_eraseDups]
  · rw [hr.distance_fst, TypeGraph.admits_iff, hg.mem_lineage_iff_distance ht hlen]
    exact ⟨.rfl, .rfl⟩

/-- The walk from the last class comes to the first interface twice. -/
theorem unfolds_diamond :
    diamond.types.Unfolds [⟨28⟩] [⟨28⟩, ⟨27⟩, ⟨0⟩, ⟨25⟩, ⟨26⟩, ⟨25⟩] := by
  have object : diamond.types.Unfolds [⟨0⟩] [⟨0⟩] := .single .nil
  have named : diamond.types.Unfolds [⟨25⟩] [⟨25⟩] := .single .nil
  have labelled : diamond.types.Unfolds [⟨26⟩] [⟨26⟩, ⟨25⟩] := .single named
  have base : diamond.types.Unfolds [⟨27⟩] [⟨27⟩, ⟨0⟩, ⟨25⟩] := .single (object.append named)
  exact .single (base.append labelled)

theorem lineage_exact_diamond :
    diamond.Reachable ∧ diamond.types.Has ⟨28⟩ ∧
      diamond.types.lineage ⟨28⟩ = [⟨28⟩, ⟨27⟩, ⟨0⟩, ⟨25⟩, ⟨26⟩] ∧
      (diamond.types.lineage ⟨28⟩).length ≤ 0x10000 ∧
      diamond.types.admits ⟨25⟩ ⟨28⟩ = true ∧ diamond.types.admits ⟨1⟩ ⟨28⟩ = false := by
  have ht : diamond.types.Has ⟨28⟩ := by decide
  obtain ⟨-, -, -, -, horder, hadmits⟩ := reachable_diamond.lineage_exact ht
  have hlineage : diamond.types.lineage ⟨28⟩ = [⟨28⟩, ⟨27⟩, ⟨0⟩, ⟨25⟩, ⟨26⟩] :=
    horder _ unfolds_diamond
  have hlen : (diamond.types.lineage ⟨28⟩).length ≤ 0x10000 := by
    rw [hlineage]
    decide
  refine ⟨reachable_diamond, ht, hlineage, hlen, ?_, ?_⟩
  · rw [(hadmits hlen ⟨25⟩).1, hlineage]
    decide
  · rw [← Bool.not_eq_true, (hadmits hlen ⟨1⟩).1, hlineage]
    decide

end Host

end Interop
