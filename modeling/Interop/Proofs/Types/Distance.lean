import Interop.Proofs.Types.Growth
import Interop.Types.Distance
import Mathlib.Data.List.Basic

/-!
# Distances by their supertypes

The pass that fills a row of distances meets every type after its supertypes. So a distance is one
more than the least of those of the direct supertypes, and later types do not change it.

* `TypeGraph.getD_extendRow`: the row holds the distances.
* `TypeGraph.WellFormed.distance_eq`: the distance of a type by those of its supertypes.
* `TypeGraph.WellFormed.distance_growsTo`: distances stay when the graph grows.
-/

namespace Interop

namespace TypeGraph

variable {g g' : TypeGraph} {target t : TypeId}

/-! ## Rows -/

theorem size_extendRow (g : TypeGraph) (target : TypeId) (count : Nat) (row : Array Nat) :
    (g.extendRow target count row).size = row.size + count := by
  induction count generalizing row with
  | zero => rfl
  | succ count ih =>
    rw [extendRow, ih, Array.size_push]
    omega

/-- A row keeps the distances that it has. -/
theorem getElem?_extendRow (g : TypeGraph) (target : TypeId) (count : Nat) {row : Array Nat}
    {i : Nat} (hi : i < row.size) : (g.extendRow target count row)[i]? = row[i]? := by
  induction count generalizing row with
  | zero => rfl
  | succ count ih =>
    rw [extendRow, ih (by rw [Array.size_push]; omega), Array.getElem?_push, if_neg (by omega)]

theorem extendRow_add (g : TypeGraph) (target : TypeId) (count more : Nat) (row : Array Nat) :
    g.extendRow target (count + more) row =
      g.extendRow target more (g.extendRow target count row) := by
  induction count generalizing row with
  | zero => rw [Nat.zero_add, extendRow]
  | succ count ih => rw [Nat.add_right_comm, extendRow, ih, extendRow]

/-- The last distance of a row is found from those before it. -/
theorem distance_eq_next (g : TypeGraph) (target t : TypeId) :
    g.distance target (some t) = g.nextDistance target (g.extendRow target t.index #[]) := by
  have hsize : (g.extendRow target t.index #[]).size = t.index := by
    rw [size_extendRow, Array.size_empty, Nat.zero_add]
  rw [distance, extendRow_add, extendRow, extendRow, Array.getD_eq_getD_getElem?,
    Array.getElem?_push, if_pos hsize.symm, Option.getD_some]

/-- **Rows.** A row that has come to a type holds its distance. -/
theorem getD_extendRow (g : TypeGraph) (target : TypeId) {count : Nat} (ht : t.index < count) :
    (g.extendRow target count #[]).getD t.index unreachable = g.distance target (some t) := by
  have hsplit : count = (t.index + 1) + (count - (t.index + 1)) := by omega
  have hin : t.index < (g.extendRow target (t.index + 1) #[]).size := by
    rw [size_extendRow, Array.size_empty]
    omega
  rw [distance, hsplit, extendRow_add, Array.getD_eq_getD_getElem?,
    getElem?_extendRow g target _ hin, Array.getD_eq_getD_getElem?]

/-! ## Supertypes -/

/-- **Supertypes.** The target is at distance zero, and every other type is one edge further than
the nearest of its direct supertypes. -/
theorem WellFormed.distance_eq (hg : g.WellFormed) (target t : TypeId) :
    g.distance target (some t) =
      if t = target then 0
      else (g.supertypes t).foldl
        (fun best parent => min best (stepUp (g.distance target (some parent)))) unreachable := by
  have hsize : (g.extendRow target t.index #[]).size = t.index := by
    rw [size_extendRow, Array.size_empty, Nat.zero_add]
  rw [distance_eq_next, nextDistance, hsize]
  split
  · rfl
  · refine List.foldl_ext _ _ _ fun best parent hp => ?_
    rw [getD_extendRow g target (hg.supertypes_older t parent hp)]

/-- **Growth.** New types do not change the distances of those that are there. -/
theorem WellFormed.distance_growsTo (hg : g.WellFormed) (hg' : g'.WellFormed) (h : g.GrowsTo g')
    (ht : g.Has t) (target : TypeId) :
    g'.distance target (some t) = g.distance target (some t) := by
  -- the supertypes of a type come before it
  induction hn : t.index using Nat.strongRecOn generalizing t with
  | _ n ih =>
    subst hn
    rw [hg'.distance_eq, hg.distance_eq, h.supertypes ht]
    split
    · rfl
    · refine List.foldl_ext _ _ _ fun best parent hp => ?_
      have older := hg.supertypes_older t parent hp
      rw [ih parent.index older (Nat.lt_trans older ht) rfl]

end TypeGraph

end Interop
