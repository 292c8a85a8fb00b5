import Interop.Types.Graph

/-!
# Lineage

The lineage of a type is the type itself and all types above it, each once, in the order in which
a walk meets them that goes from a type to its superclass and then to its interfaces.

* `TypeGraph.lineage`: the walk. A list of types still to visit stands for the way back.
-/

namespace Interop

namespace TypeGraph

variable (g : TypeGraph)

/-- Visits the types of `work` in order, each followed by its supertypes, unless `seen` marks it.
The types visited so far are in `found`, the last one first. -/
def walk (seen : Array Bool) (found : List TypeId) : List TypeId → List TypeId
  | [] => found.reverse
  | t :: work =>
    if _unseen : seen[t.index]? = some false then
      walk (seen.setIfInBounds t.index true) (t :: found) (g.supertypes t ++ work)
    else walk seen found work
  termination_by work => (seen.count false, work.length)
  decreasing_by
    · obtain ⟨inside, isFalse⟩ := Array.getElem?_eq_some_iff.mp _unseen
      have positive : 0 < seen.count false :=
        Array.count_pos_iff.mpr (isFalse ▸ Array.getElem_mem inside)
      apply Prod.Lex.left
      rw [Array.setIfInBounds, dif_pos inside, Array.count_set, isFalse]
      simp only [beq_self_eq_true, beq_iff_eq, reduceCtorEq, if_true, if_false]
      omega
    · apply Prod.Lex.right
      simp

def lineage (t : TypeId) : List TypeId := g.walk (Array.replicate g.size false) [] [t]

end TypeGraph

end Interop
