import Interop.Proofs.Types.Distance

/-!
# The memo of distances

The memo holds rows of distances. A query reads a row as far as it goes and extends it by what is
missing, so all rows are what a pass from the first type on would have found.

* `DistanceMemo.Agrees`: the rows are right. An empty memo agrees with every graph
  (`agrees_empty`), growth keeps this (`Agrees.growsTo`), and so does a query (`Agrees.query`).
* `DistanceMemo.distance?_query`: no query changes an entry.
-/

namespace Interop

namespace TypeGraph

variable {g g' : TypeGraph}

/-- New types do not change the row of the types that are there. -/
theorem GrowsTo.extendRow (h : g.GrowsTo g') (target : TypeId) {count : Nat}
    (hc : count ≤ g.size) :
    g'.extendRow target count #[] = g.extendRow target count #[] := by
  induction count with
  | zero => rfl
  | succ count ih =>
    have hsize : (g.extendRow target count #[]).size = count := by
      rw [size_extendRow, Array.size_empty, Nat.zero_add]
    have hnext : g'.nextDistance target (g.extendRow target count #[]) =
        g.nextDistance target (g.extendRow target count #[]) := by
      rw [nextDistance, nextDistance, h.supertypes (t := ⟨_⟩) (by rw [hsize]; exact hc)]
    rw [extendRow_add, extendRow_add, ih (Nat.le_of_succ_le hc)]
    show (g.extendRow target count #[]).push _ = (g.extendRow target count #[]).push _
    rw [hnext]

end TypeGraph

namespace DistanceMemo

variable {memo : DistanceMemo} {g g' : TypeGraph} {target candidate : TypeId} {d : Nat}

/-- The distance that the memo holds for a target and a candidate. -/
def distance? (memo : DistanceMemo) (target candidate : TypeId) : Option Nat :=
  (memo.rows.get? target).bind fun row => row[candidate.index]?

/-- The rows go no further than there are types, and hold what a pass over these types finds. -/
structure Agrees (memo : DistanceMemo) (g : TypeGraph) : Prop where
  within : ∀ target row, memo.rows.get? target = some row → row.size ≤ g.size
  right : ∀ target row, memo.rows.get? target = some row →
    row = g.extendRow target row.size #[]

theorem agrees_empty (g : TypeGraph) : empty.Agrees g := ⟨nofun, nofun⟩

theorem Agrees.growsTo (h : memo.Agrees g) (hg : g.GrowsTo g') : memo.Agrees g' where
  within target row hrow := by
    have hle := h.within target row hrow
    by_cases hz : row.size = 0
    · omega
    · -- the last type of the row is still there
      have hlast : g'.Has ⟨row.size - 1⟩ :=
        hg.has (show row.size - 1 < g.size by omega)
      have hlt : row.size - 1 < g'.size := hlast
      omega
  right target row hrow := by
    rw [hg.extendRow target (h.within target row hrow)]
    exact h.right target row hrow

/-- An entry of the memo is the distance of a type of the graph. -/
theorem Agrees.distance?_eq (h : memo.Agrees g) (he : memo.distance? target candidate = some d) :
    g.Has candidate ∧ d = g.distance target (some candidate) := by
  obtain ⟨row, hrow, hd⟩ := Option.bind_eq_some_iff.mp he
  obtain ⟨hlt, rfl⟩ := Array.getElem?_eq_some_iff.mp hd
  refine ⟨Nat.lt_of_lt_of_le hlt (h.within target row hrow), ?_⟩
  have hget := g.getD_extendRow target hlt
  rw [← h.right target row hrow, Array.getD_eq_getD_getElem?, hd] at hget
  exact hget

/-- The row that a query has known so far. -/
theorem Agrees.known (h : memo.Agrees g) (target : TypeId) :
    (memo.rows.get? target).getD #[] =
      g.extendRow target ((memo.rows.get? target).getD #[]).size #[] := by
  cases hrow : memo.rows.get? target with
  | none => rfl
  | some row => exact h.right target row hrow

/-- **Queries.** The answer is the distance, and the memo still agrees if the query was about a
type of the graph. -/
theorem Agrees.query (h : memo.Agrees g) (target : TypeId) (candidate : Option TypeId) :
    (memo.query g target candidate).1 = g.distance target candidate ∧
      ((∀ c ∈ candidate, g.Has c) → (memo.query g target candidate).2.Agrees g) := by
  cases candidate with
  | none => exact ⟨rfl, fun _ => h⟩
  | some c =>
    have hknown := h.known target
    unfold DistanceMemo.query
    dsimp only
    generalize (memo.rows.get? target).getD #[] = known at hknown
    by_cases hlt : c.index < known.size
    · rw [if_pos hlt]
      refine ⟨?_, fun _ => h⟩
      have hget := g.getD_extendRow target hlt
      rw [← hknown] at hget
      exact hget
    · rw [if_neg hlt]
      have hcount : known.size + (c.index + 1 - known.size) = c.index + 1 := by omega
      have hrow : g.extendRow target (c.index + 1 - known.size) known =
          g.extendRow target (c.index + 1) #[] := by
        rw [← hcount, g.extendRow_add target known.size, ← hknown, Nat.add_sub_cancel_left]
      have hsize : (g.extendRow target (c.index + 1) #[]).size = c.index + 1 := by
        rw [TypeGraph.size_extendRow, Array.size_empty, Nat.zero_add]
      rw [hrow]
      refine ⟨rfl, fun hc => ⟨fun u row hu => ?_, fun u row hu => ?_⟩⟩
      · rw [TypeMap.get?_insert] at hu
        split at hu
        · cases hu
          rw [hsize]
          exact hc c rfl
        · exact h.within u row hu
      · rw [TypeMap.get?_insert] at hu
        split at hu
        · rename_i htu
          cases hu
          rw [hsize, htu]
        · exact h.right u row hu

/-- A query changes no entry. -/
theorem distance?_query (he : memo.distance? target candidate = some d) (g : TypeGraph) (u : TypeId)
    (c : Option TypeId) : (memo.query g u c).2.distance? target candidate = some d := by
  cases c with
  | none => exact he
  | some c =>
    unfold DistanceMemo.query
    dsimp only
    split
    · exact he
    · obtain ⟨row, hrow, hd⟩ := Option.bind_eq_some_iff.mp he
      rw [distance?, TypeMap.get?_insert]
      split
      · rename_i htu
        subst htu
        obtain ⟨hlt, -⟩ := Array.getElem?_eq_some_iff.mp hd
        rw [hrow]
        show (g.extendRow u _ row)[candidate.index]? = some d
        rw [TypeGraph.getElem?_extendRow g u _ hlt]
        exact hd
      · exact he

end DistanceMemo

end Interop
