import Interop.Proofs.Call.Totals

/-!
# Sums of scores

Scores are added up to `uncoercible` and no further. The sum does not depend on the order or the
grouping of the scores, so the total of a call may be found in any order too, and stopping at the
first uncoercible total changes nothing.

* `Score.cost_sum`: the cost of a sum.
* `Score.sum_eq_uncoercible_iff`: the sums that are uncoercible.
* `Host.Reachable.call_sums`: totals of calls are sums of the scores of their arguments.
-/

namespace Interop

namespace Score

variable {s t s' t' : Score} {scores more : List Score}

/-! ## Laws of addition -/

/-- A score is the score of its cost. -/
theorem ofCost_cost (s : Score) : ofCost s.cost = s :=
  eq_of_cost (by rw [cost_ofCost, Nat.min_eq_left s.cost_le])

protected theorem add_comm (s t : Score) : s + t = t + s :=
  eq_of_cost (by rw [cost_add, cost_add, Nat.add_comm])

protected theorem add_assoc (s t u : Score) : s + t + u = s + (t + u) :=
  eq_of_cost (by
    simp only [cost_add]
    omega)

theorem add_exact (s : Score) : s + exact = s :=
  eq_of_cost (by rw [cost_add, cost_exact, Nat.add_zero, Nat.min_eq_left s.cost_le])

theorem add_uncoercible (s : Score) : s + uncoercible = uncoercible :=
  eq_of_cost (by rw [cost_add, cost_uncoercible, Nat.min_eq_right (Nat.le_add_left ..)])

protected theorem add_le_add (hs : s ≤ s') (ht : t ≤ t') : s + t ≤ s' + t' := by
  rw [le_iff] at hs ht ⊢
  rw [cost_add, cost_add]
  omega

/-! ## Sums of lists -/

/-- The cost of a sum that goes on from a score. -/
theorem cost_foldl (scores : List Score) (s : Score) :
    (scores.foldl (· + ·) s).cost = min (s.cost + (scores.map cost).sum) unreachable := by
  induction scores generalizing s with
  | nil =>
    rw [List.foldl_nil, List.map_nil, List.sum_nil, Nat.add_zero, Nat.min_eq_left s.cost_le]
  | cons t scores ih =>
    rw [List.foldl_cons, ih, cost_add, List.map_cons, List.sum_cons]
    omega

/-- **Sums.** A sum costs what its scores do together, up to `unreachable`. -/
theorem cost_sum (scores : List Score) :
    (sum scores).cost = min (scores.map cost).sum unreachable := by
  rw [sum, cost_foldl, cost_exact, Nat.zero_add]

theorem sum_perm (h : scores.Perm more) : sum scores = sum more :=
  eq_of_cost (by rw [cost_sum, cost_sum, (h.map cost).sum_eq])

/-- A sum is uncoercible because of one of its scores, or because of all of them together. -/
theorem sum_eq_uncoercible_iff :
    sum scores = uncoercible ↔ uncoercible ∈ scores ∨ unreachable ≤ (scores.map cost).sum := by
  have hsum : sum scores = uncoercible ↔ unreachable ≤ (scores.map cost).sum := by
    rw [eq_uncoercible_iff, ← Bool.not_eq_true, isCoercible_iff, cost_sum]
    omega
  have hone : uncoercible ∈ scores → unreachable ≤ (scores.map cost).sum := fun hmem =>
    List.le_sum_of_mem (List.mem_map_of_mem hmem)
  rw [hsum]
  exact ⟨.inr, fun h => h.elim hone id⟩

end Score

namespace TypeGraph

variable {g : TypeGraph} {parameters : List TypeId} {arguments : List ScriptValue}

/-- The scores of the arguments, each on its own. -/
def scores (g : TypeGraph) (parameters : List TypeId) (arguments : List ScriptValue) :
    List Score :=
  (parameters.zip arguments).map fun x => g.score x.1 x.2

theorem callScore_eq_sum (hl : parameters.length = arguments.length) :
    g.callScore parameters arguments = .sum (g.scores parameters arguments) := by
  refine Score.eq_of_cost ?_
  rw [cost_callScore hl, Score.cost_sum, costs, scores, List.map_map]
  rfl

theorem callScore_of_length_ne (hl : parameters.length ≠ arguments.length) :
    g.callScore parameters arguments = .uncoercible := by
  rw [callScore, if_neg hl]

end TypeGraph

namespace Host

/-- **Sums of scores.** A score is made from its cost. A sum costs what its scores do, up to
`unreachable`. Scores may be added in any order and grouping; nothing changes with `exact`,
everything is lost with `uncoercible`, and a sum grows with its scores. With as many arguments as
parameters, the total of a call, though found only up to the first uncoercible total, is the sum of
the scores of all arguments, in whatever order. It is uncoercible exactly if one of them is or their
costs add up to as much. With another count of arguments it always is. -/
theorem Reachable.call_sums {h : Host} (hr : h.Reachable) :
    (∀ s t : Score, Score.ofCost s.cost = s ∧
      (s + t).cost = min (s.cost + t.cost) 0x10000 ∧ s + t = t + s ∧
      s + .exact = s ∧ .exact + s = s ∧
      s + .uncoercible = .uncoercible ∧ .uncoercible + s = .uncoercible) ∧
    (∀ s t u : Score, s + t + u = s + (t + u)) ∧
    (∀ s s' t t' : Score, s ≤ s' → t ≤ t' → s + t ≤ s' + t') ∧
    ∀ (parameters : List TypeId) (arguments : List ScriptValue),
      let total := h.types.callScore parameters arguments
      let scores := (parameters.zip arguments).map fun x => (h.score x.1 x.2).1
      (parameters.length = arguments.length →
        total.cost = min 0x10000 (scores.map Score.cost).sum ∧
        (∀ order, order.Perm scores → Score.sum order = total) ∧
        (total = .uncoercible ↔
          .uncoercible ∈ scores ∨ 0x10000 ≤ (scores.map Score.cost).sum)) ∧
      (parameters.length ≠ arguments.length → total = .uncoercible) := by
  refine ⟨fun s t => ⟨s.ofCost_cost, s.cost_add t, s.add_comm t, s.add_exact, ?_,
      s.add_uncoercible, ?_⟩, Score.add_assoc, fun _ _ _ _ => Score.add_le_add, ?_⟩
  · rw [Score.add_comm, Score.add_exact]
  · rw [Score.add_comm, Score.add_uncoercible]
  · intro parameters arguments total scores
    have hscores : scores = h.types.scores parameters arguments := by
      simp only [scores, hr.score_fst]
      rfl
    refine ⟨fun hl => ?_, TypeGraph.callScore_of_length_ne⟩
    have htotal : total = .sum scores := hscores ▸ TypeGraph.callScore_eq_sum hl
    rw [htotal]
    refine ⟨?_, fun order => Score.sum_perm, Score.sum_eq_uncoercible_iff⟩
    rw [Score.cost_sum, Nat.min_comm]
    rfl

/-- So many lossy arguments that no more fit, although each of them does. -/
theorem call_sums_lossy :
    let v := (Value.text [0xFF]).script .initial 1
    initial.Reachable ∧ (initial.score Builtin.text v).1 = .lossy ∧
      initial.types.callScore (List.replicate 256 Builtin.text) (List.replicate 256 v) =
        .uncoercible := by
  intro v
  have hlossy : (initial.score Builtin.text v).1 = .lossy := by
    rw [Reachable.initial.score_fst, TypeGraph.score,
      TypeGraph.strategy_of_known (s := .text .text) (by decide)]
    decide +kernel
  have hlength : (List.replicate 256 Builtin.text).length = (List.replicate 256 v).length := by
    rw [List.length_replicate, List.length_replicate]
  obtain ⟨-, -, -, hcalls⟩ := Reachable.initial.call_sums
  obtain ⟨-, -, huncoercible⟩ := (hcalls _ _).1 hlength
  refine ⟨.initial, hlossy, huncoercible.mpr (.inr ?_)⟩
  rw [List.zip_replicate', List.map_replicate, List.map_replicate, List.sum_replicate_nat, hlossy]
  decide

end Host

end Interop
