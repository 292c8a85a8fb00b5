import Interop.Types.Graph

/-!
# Inheritance distance

The distance from a type up to a target is the least number of supertype edges between them, and
`unreachable` if there is no way up or none that is shorter. Supertypes are older than their
subtypes, so one pass over the types in order finds the distances of all of them.

* `TypeGraph.distance`: the distance of one type, or of no type at all.
* `DistanceMemo.query`: the same answer, with the distances found so far kept for later queries.
-/

namespace Interop

/-- The distance of a type that is not below the target, and the cap of all distances. -/
def unreachable : Nat := 0x10000

/-- One more edge. -/
def stepUp (distance : Nat) : Nat := min (distance + 1) unreachable

namespace TypeGraph

variable (g : TypeGraph)

/-- The distance of the type after those whose distances `row` holds. -/
def nextDistance (target : TypeId) (row : Array Nat) : Nat :=
  let candidate : TypeId := ⟨row.size⟩
  if candidate = target then 0
  else
    (g.supertypes candidate).foldl
      (fun best parent => min best (stepUp (row.getD parent.index unreachable))) unreachable

/-- Extends the distances in `row` by those of the next `count` types. -/
def extendRow (target : TypeId) : Nat → Array Nat → Array Nat
  | 0, row => row
  | count + 1, row => extendRow target count (row.push (g.nextDistance target row))

/-- The least number of edges from `candidate` up to `target`, at most `unreachable`. -/
def distance (target : TypeId) : Option TypeId → Nat
  | none => unreachable
  | some candidate =>
    (g.extendRow target (candidate.index + 1) #[]).getD candidate.index unreachable

/-- Whether a value of type `candidate` can stand where `target` is expected. -/
def admits (target candidate : TypeId) : Bool :=
  g.distance target (some candidate) < unreachable

end TypeGraph

/-- The distances found so far: for a target, those of all types up to some position. A memo of the
pairs that a recursion over supertypes meets has fewer of them, and the same ones
(`Host.Remembered.agrees`). -/
structure DistanceMemo where
  rows : TypeMap (Array Nat)

namespace DistanceMemo

def empty : DistanceMemo := ⟨.empty⟩

/-- The distance, looked up where it is known and else found and kept. -/
def query (memo : DistanceMemo) (g : TypeGraph) (target : TypeId) :
    Option TypeId → Nat × DistanceMemo
  | none => (unreachable, memo)
  | some candidate =>
    let known := (memo.rows.get? target).getD #[]
    if candidate.index < known.size then (known.getD candidate.index unreachable, memo)
    else
      let row := g.extendRow target (candidate.index + 1 - known.size) known
      (row.getD candidate.index unreachable, ⟨memo.rows.insert target row⟩)

end DistanceMemo

end Interop
