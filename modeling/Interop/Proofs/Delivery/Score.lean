import Interop.Delivery.Score

/-!
# Laws of scores

A score is its cost, and costs are added up to `unreachable` and no further. A score is coercible
as long as it stays below.

* `Score.cost_add`: the cost of a sum.
* `Score.isCoercible_distance`: a distance is a coercible score exactly if there is a way up.
-/

namespace Interop

namespace Score

variable {s t : Score}

theorem eq_of_cost (h : s.cost = t.cost) : s = t := by
  cases s
  cases t
  cases h
  rfl

@[simp] theorem cost_ofCost (c : Nat) : (ofCost c).cost = min c unreachable := rfl

@[simp] theorem cost_exact : exact.cost = 0 := rfl

@[simp] theorem cost_uncoercible : uncoercible.cost = unreachable := rfl

@[simp] theorem cost_nilAsNull : nilAsNull.cost = 0x10 := rfl

@[simp] theorem cost_lossy : lossy.cost = 0x100 := rfl

theorem isCoercible_iff : s.isCoercible = true ↔ s.cost < unreachable := by
  simp [isCoercible]

theorem lt_iff : s < t ↔ s.cost < t.cost := .rfl

theorem le_iff : s ≤ t ↔ s.cost ≤ t.cost := .rfl

theorem eq_uncoercible_iff : s = uncoercible ↔ s.isCoercible = false := by
  rw [← Bool.not_eq_true, isCoercible_iff]
  constructor
  · rintro rfl
    exact Nat.lt_irrefl _
  · intro h
    exact eq_of_cost (Nat.le_antisymm s.cost_le (Nat.not_lt.mp h))

theorem isCoercible_ofCost {c : Nat} : (ofCost c).isCoercible = true ↔ c < unreachable := by
  rw [isCoercible_iff, cost_ofCost]
  omega

/-- Costs add up to `unreachable` and no further. An uncoercible score costs that much, and two
coercible ones stay far below `greatestSum`. -/
@[simp] theorem cost_add (s t : Score) : (s + t).cost = min (s.cost + t.cost) unreachable := by
  show (add s t).cost = _
  have hs := s.cost_le
  have ht := t.cost_le
  rw [add]
  split
  · rename_i h
    simp only [Bool.or_eq_true, Bool.not_eq_true', ← Bool.not_eq_true, isCoercible_iff] at h
    rw [cost_uncoercible]
    omega
  · rw [cost_ofCost, greatestSum]
    simp only [unreachable] at hs ht ⊢
    omega

/-- A distance is a coercible score exactly if the target admits the type. -/
theorem isCoercible_distance {g : TypeGraph} {target : TypeId} {candidate : Option TypeId} :
    (ofCost (g.distance target candidate)).isCoercible = true ↔
      ∃ c, candidate = some c ∧ g.admits target c = true := by
  rw [isCoercible_ofCost]
  cases candidate with
  | none => simp [TypeGraph.distance]
  | some c => simp [TypeGraph.admits]

end Score

end Interop
