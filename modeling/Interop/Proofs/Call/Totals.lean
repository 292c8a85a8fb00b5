import Interop.Proofs.Call.Selection
import Interop.Proofs.Host.Run
import Interop.Proofs.Types.Distance
import Mathlib.Algebra.Order.BigOperators.Group.List
import Mathlib.Algebra.Order.Ring.Nat

/-!
# Totals of calls

The arity limit is meant to keep the totals of calls below `uncoercible`. It does so as long as no
argument costs more than `Score.worstArgument`. All strategies keep to that bound but where they
measure inheritance: there a score is a distance, and distances are as long as the hierarchy is
deep.

* `TypeGraph.callScore_isCoercible_iff`: a total is coercible exactly if the costs of the arguments
  add up to less than `unreachable`.
* `Strategy.levels?`: the distance that a score is, where it is one. `Strategy.cost_of_no_levels`:
  the bands of all other scores.
* `TypeGraph.total_iff_levels`: calls keep to the bounds exactly if distances do.
* `Host.chain`: a hierarchy on which a call is lost although each of its arguments is coercible
  (`Host.chain_total_lost`).
-/

namespace Interop

/-! ## Costs of single arguments -/

/-- A number costs little where its type holds it, and `lossy` where it does not. -/
theorem NumericForm.cost_score (target : NumericForm) (n : Number) :
    (target.score n).cost ≤ 2 ∨ (target.score n).cost = Score.lossy.cost := by
  cases n with
  | integer i =>
    rw [score, integerScore.eq_def]
    cases target <;> (repeat' split) <;> decide
  | float x =>
    rw [score, floatScore.eq_def]
    cases target <;> (repeat' split) <;> decide

namespace Strategy

/-- The distance that measures how well a value fits, if it is inheritance that does. A table is
measured as its first element is. -/
def levels? (g : TypeGraph) : Strategy → ScriptValue → Option Nat
  | array element elements, v =>
    match v.kind with
    | .table => if v.length = 0 then none else levels? g elements (v.index 1)
    | .userdata => some (g.distance element (v.object?.bind fun o => g.element? o.type))
    | _ => none
  | object target, v => if v.kind = .nil then none else some (g.distance target (naturalType? v))
  | _, _ => none

variable {g : TypeGraph} {s : Strategy} {v : ScriptValue} {d : Nat}

/-- Where inheritance is measured, the distance is the score. -/
theorem score_of_levels (h : s.levels? g v = some d) : s.score g v = .ofCost d := by
  induction s generalizing v with
  | boolean | numeric | text => cases h
  | array e elements ih =>
    rw [levels?] at h
    rw [score]
    cases hk : v.kind with
    | table =>
      simp only [hk] at h
      split at h
      · cases h
      · rename_i hl
        simp only [if_neg hl]
        exact ih h
    | userdata =>
      simp only [hk] at h
      cases h
      rfl
    | nil | boolean | number | text | function | thread =>
      simp only [hk] at h
      cases h
  | object target =>
    rw [levels?] at h
    rw [score, objectScore]
    split at h
    · cases h
    · rename_i hk
      rw [if_neg hk]
      cases h
      rfl

/-- **Bands.** Where inheritance is not measured, a score is at most that of nil in place of a
reference, or it is that of a lossy conversion with no more than the cost of reading on top, or it
is uncoercible. -/
theorem cost_of_no_levels (h : s.levels? g v = none) :
    (s.score g v).cost ≤ Score.nilAsNull.cost ∨
      (Score.lossy.cost ≤ (s.score g v).cost ∧ (s.score g v).cost ≤ Score.worstArgument) ∨
        (s.score g v).cost = unreachable := by
  induction s generalizing v with
  | boolean =>
    rw [score, booleanScore]
    split <;> decide
  | numeric target =>
    rw [score, numericScore.eq_def]
    split
    · rename_i n _ _
      have hn := target.cost_score n
      simp only [Score.cost_lossy, Score.cost_nilAsNull, Score.worstArgument,
        Score.readingPenalty] at hn ⊢
      omega
    · rename_i n _ _
      have hn := target.cost_score n
      simp only [Score.cost_add, Score.cost_ofCost, Score.cost_lossy, Score.cost_nilAsNull,
        Score.worstArgument, Score.readingPenalty, unreachable] at hn ⊢
      omega
    · exact .inr (.inr rfl)
  | text target =>
    rw [score, textScore.eq_def]
    split
    · split <;> decide
    · split <;> decide
    · decide
    · decide
    · exact .inr (.inr rfl)
  | array e elements ih =>
    rw [levels?] at h
    rw [score]
    cases hk : v.kind with
    | table =>
      simp only [hk] at h ⊢
      split
      · decide
      · rename_i hl
        rw [if_neg hl] at h
        exact ih h
    | userdata =>
      simp only [hk] at h
      cases h
    | nil => exact .inl (Nat.le_refl _)
    | boolean | number | text | function | thread => exact .inr (.inr rfl)
  | object target =>
    rw [levels?] at h
    split at h
    · rename_i hk
      rw [score, objectScore, if_pos hk]
      decide
    · cases h

/-- Where inheritance is not measured, no coercible score is above the worst one. -/
theorem cost_le_of_no_levels (h : s.levels? g v = none)
    (hc : (s.score g v).isCoercible = true) : (s.score g v).cost ≤ Score.worstArgument := by
  rw [Score.isCoercible_iff] at hc
  rcases cost_of_no_levels h with hle | ⟨-, hle⟩ | heq
  · exact Nat.le_trans hle (by decide)
  · exact hle
  · exact absurd heq (Nat.ne_of_lt hc)

end Strategy

namespace TypeGraph

variable {g : TypeGraph} {t : TypeId} {v : ScriptValue} {parameters : List TypeId}
  {arguments : List ScriptValue}

/-- The distance that measures how well `v` fits the type `t`, if it is inheritance that does. -/
def levels? (g : TypeGraph) (t : TypeId) (v : ScriptValue) : Option Nat :=
  (g.strategy t).levels? g v

/-- A coercible argument is above the worst score exactly if it is so many levels below its
parameter. -/
theorem cost_le_iff_levels (hc : (g.score t v).isCoercible = true) :
    (g.score t v).cost ≤ Score.worstArgument ↔
      ∀ d, g.levels? t v = some d → d ≤ Score.worstArgument := by
  have hlt := Score.isCoercible_iff.mp hc
  unfold score levels? at *
  cases hd : (g.strategy t).levels? g v with
  | none =>
    have hle := Strategy.cost_le_of_no_levels hd hc
    simp [hle]
  | some d =>
    rw [Strategy.score_of_levels hd, Score.cost_ofCost] at hlt ⊢
    simp only [Option.some.injEq, forall_eq']
    omega

/-! ## Totals -/

/-- The costs of the arguments of a call, one by one. -/
def costs (g : TypeGraph) (parameters : List TypeId) (arguments : List ScriptValue) : List Nat :=
  (parameters.zip arguments).map fun x => (g.score x.1 x.2).cost

theorem costs_append {ps qs : List TypeId} {vs ws : List ScriptValue} (hl : ps.length = vs.length) :
    g.costs (ps ++ qs) (vs ++ ws) = g.costs ps vs ++ g.costs qs ws := by
  rw [costs, List.zip_append hl, List.map_append, ← costs, ← costs]

theorem sum_costs_replicate (g : TypeGraph) (t : TypeId) (v : ScriptValue) (n : Nat) :
    (g.costs (List.replicate n t) (List.replicate n v)).sum = n * (g.score t v).cost := by
  rw [costs, List.zip_replicate', List.map_replicate, List.sum_replicate_nat]

theorem eq_of_mem_zip_replicate {n : Nat} {x : TypeId × ScriptValue}
    (hx : x ∈ (List.replicate n t).zip (List.replicate n v)) : x = (t, v) := by
  rw [List.zip_replicate'] at hx
  exact List.eq_of_mem_replicate hx

/-- Stopping at the first uncoercible total changes nothing, since all later ones are the same. -/
theorem cost_addScores (g : TypeGraph) (total : Score) (xs : List (TypeId × ScriptValue)) :
    (g.addScores total xs).cost =
      min (total.cost + (xs.map fun x => (g.score x.1 x.2).cost).sum) unreachable := by
  induction xs generalizing total with
  | nil =>
    have := total.cost_le
    simp only [addScores, List.map_nil, List.sum_nil]
    omega
  | cons x xs ih =>
    rw [addScores]
    simp only [List.map_cons, List.sum_cons]
    split
    · rw [ih, Score.cost_add]
      omega
    · rename_i hc
      rw [Score.isCoercible_iff, Score.cost_add] at hc
      rw [Score.cost_add]
      omega

/-- **Totals.** The total of a call is the sum of the costs, up to `unreachable`. -/
theorem cost_callScore (hl : parameters.length = arguments.length) :
    (g.callScore parameters arguments).cost =
      min (g.costs parameters arguments).sum unreachable := by
  rw [callScore, if_pos hl, cost_addScores, Score.cost_exact, Nat.zero_add, costs]

theorem callScore_isCoercible_iff (hl : parameters.length = arguments.length) :
    (g.callScore parameters arguments).isCoercible = true ↔
      (g.costs parameters arguments).sum < unreachable := by
  rw [Score.isCoercible_iff, cost_callScore hl]
  omega

/-- Arguments that keep to the worst score have a coercible total, if there are not too many. -/
theorem sum_costs_lt (hl : parameters.length = arguments.length)
    (ha : parameters.length ≤ Score.arityLimit)
    (hw : ∀ c ∈ g.costs parameters arguments, c ≤ Score.worstArgument) :
    (g.costs parameters arguments).sum < unreachable := by
  have hsum := List.sum_le_card_nsmul _ _ hw
  have hlen : (g.costs parameters arguments).length ≤ 252 := by
    rw [costs, List.length_map, List.length_zip, ← hl, Nat.min_self]
    exact ha
  calc (g.costs parameters arguments).sum
      ≤ (g.costs parameters arguments).length * Score.worstArgument := hsum
    _ ≤ 252 * Score.worstArgument := Nat.mul_le_mul_right _ hlen
    _ < unreachable := by decide

end TypeGraph

namespace Host

/-- **The bounds of calls.** Let every argument of a call on its own be coercible, and let the count
of arguments be within the limit. Then no argument costs more than the worst score and the total is
coercible too, exactly if no argument is more levels below its parameter than the worst score. The
total itself, and with it the part that a candidate takes in a choice, only depends on the sum. -/
theorem Reachable.total_iff_levels {h : Host} (hr : h.Reachable) {parameters : List TypeId}
    {arguments : List ScriptValue} (hl : parameters.length = arguments.length)
    (ha : parameters.length ≤ Score.arityLimit)
    (hc : ∀ x ∈ parameters.zip arguments, (h.score x.1 x.2).1.isCoercible = true) :
    ((∀ x ∈ parameters.zip arguments, (h.score x.1 x.2).1.cost ≤ Score.worstArgument) ∧
        (h.types.callScore parameters arguments).isCoercible = true ↔
      ∀ x ∈ parameters.zip arguments, ∀ d, h.types.levels? x.1 x.2 = some d →
        d ≤ Score.worstArgument) ∧
    ((h.types.callScore parameters arguments).isCoercible = true ↔
      (h.types.costs parameters arguments).sum < unreachable) ∧
    ∀ candidates, ∀ c ∈ candidates, c.parameters = parameters →
      (c ∈ h.types.contenders arguments candidates ↔
        (h.types.costs parameters arguments).sum < unreachable) := by
  simp only [hr.score_fst] at hc ⊢
  have hsum := TypeGraph.callScore_isCoercible_iff (g := h.types) hl
  have hlevels : (∀ x ∈ parameters.zip arguments,
      (h.types.score x.1 x.2).cost ≤ Score.worstArgument) ↔
      ∀ x ∈ parameters.zip arguments, ∀ d, h.types.levels? x.1 x.2 = some d →
        d ≤ Score.worstArgument :=
    forall₂_congr fun x hx => TypeGraph.cost_le_iff_levels (hc x hx)
  refine ⟨?_, hsum, ?_⟩
  · rw [← hlevels]
    refine ⟨And.left, fun hw => ⟨hw, hsum.mpr (TypeGraph.sum_costs_lt hl ha fun c hmem => ?_)⟩⟩
    obtain ⟨x, hx, rfl⟩ := List.mem_map.mp hmem
    exact hw x hx
  · rintro candidates c hmem rfl
    rw [TypeGraph.mem_contenders_iff, hsum]
    exact ⟨fun h => h.2.2, fun h => ⟨hmem, hl, h⟩⟩

/-! ## Deep hierarchies -/

/-- A chain of so many classes below the root class, with its last class. -/
def chain : Nat → TypeId × Host
  | 0 => (Builtin.object, initial)
  | count + 1 => (chain count).2.declareClass ("c" ++ toString count) (some (chain count).1) []

theorem reachable_chain (count : Nat) :
    (chain count).2.Reachable ∧ (chain count).2.types.Has (chain count).1 := by
  induction count with
  | zero => exact ⟨.initial, by decide⟩
  | succ count ih =>
    refine ⟨.step ih.1 (.declareClass _ _ _ ?_ nofun), ?_⟩
    · rintro u ⟨⟩
      exact ih.2
    · exact (chain count).2.types.has_add _

/-- The last class of a chain is as many levels below the root class as there are classes. -/
theorem distance_chain (count : Nat) :
    (chain count).2.types.distance Builtin.object (some (chain count).1) =
      min count unreachable := by
  induction count with
  | zero => decide
  | succ count ih =>
    obtain ⟨hr, hh⟩ := reachable_chain count
    have hg := hr.sound.types
    have hg' := (reachable_chain (count + 1)).1.sound.types
    have hgrow : (chain count).2.types.GrowsTo (chain (count + 1)).2.types :=
      TypeGraph.growsTo_declareClass _ _ _ _
    have hsup : (chain (count + 1)).2.types.supertypes (chain (count + 1)).1 =
        [(chain count).1] :=
      (chain count).2.types.supertypes_add _
    have hne : (chain (count + 1)).1 ≠ Builtin.object := by
      intro heq
      have hpos := hg.has_object
      rw [← heq] at hpos
      exact Nat.lt_irrefl _ hpos
    rw [hg'.distance_eq, if_neg hne, hsup, List.foldl_cons, List.foldl_nil,
      hg.distance_growsTo hg' hgrow hh, ih, stepUp]
    omega

/-- An object of the last class of a chain. -/
def chainObject (count : Nat) : ScriptValue :=
  (Value.userdata ⟨(chain count).1, "", 1⟩).script .initial 2

theorem strategy_object {h : Host} (hr : h.Reachable) :
    h.types.strategy Builtin.object = .object Builtin.object := by
  refine TypeGraph.strategy_of_no_element (by decide) ?_
  rw [hr.sound.types.known.element? (by decide)]
  decide

theorem score_chainObject (count : Nat) :
    ((chain count).2.score Builtin.object (chainObject count)).1 = .ofCost count := by
  have hr := (reachable_chain count).1
  rw [hr.score_fst, TypeGraph.score, strategy_object hr]
  show Score.ofCost ((chain count).2.types.distance Builtin.object (some (chain count).1)) = _
  rw [distance_chain]
  exact Score.eq_of_cost (by simp)

/-- As many parameters as the limit allows, all of the root class. -/
def rootParameters : List TypeId := List.replicate Score.arityLimit Builtin.object

/-- The same object of the last class of a chain for all of them. -/
def chainArguments (count : Nat) : List ScriptValue :=
  List.replicate Score.arityLimit (chainObject count)

theorem eq_of_mem_chain {count : Nat} {x : TypeId × ScriptValue}
    (hx : x ∈ rootParameters.zip (chainArguments count)) :
    x = (Builtin.object, chainObject count) :=
  TypeGraph.eq_of_mem_zip_replicate hx

theorem length_chain (count : Nat) : rootParameters.length = (chainArguments count).length := by
  simp [rootParameters, chainArguments]

theorem length_rootParameters : rootParameters.length ≤ Score.arityLimit := by
  simp [rootParameters]

theorem isCoercible_chain (count : Nat) (hc : count < unreachable) :
    ∀ x ∈ rootParameters.zip (chainArguments count),
      ((chain count).2.score x.1 x.2).1.isCoercible = true := by
  intro x hx
  rw [eq_of_mem_chain hx, score_chainObject]
  exact Score.isCoercible_ofCost.mpr hc

theorem sum_costs_chain {count : Nat} (hc : count < unreachable) :
    ((chain count).2.types.costs rootParameters (chainArguments count)).sum =
      Score.arityLimit * count := by
  have hr := (reachable_chain count).1
  rw [rootParameters, chainArguments, TypeGraph.sum_costs_replicate, ← hr.score_fst,
    score_chainObject, Score.cost_ofCost, Nat.min_eq_left (Nat.le_of_lt hc)]

/-- On a chain of as many classes as the worst score allows, the longest call is not lost. -/
theorem total_iff_levels_chain :
    (chain 260).2.Reachable ∧ rootParameters.length = (chainArguments 260).length ∧
      rootParameters.length ≤ Score.arityLimit ∧
      (∀ x ∈ rootParameters.zip (chainArguments 260),
        ((chain 260).2.score x.1 x.2).1.isCoercible = true) ∧
      ((chain 260).2.types.callScore rootParameters (chainArguments 260)).isCoercible = true := by
  have hr := (reachable_chain 260).1
  have hc := isCoercible_chain 260 (by decide)
  have hbounds := hr.total_iff_levels (length_chain 260) length_rootParameters hc
  refine ⟨hr, length_chain 260, length_rootParameters, hc, hbounds.2.1.mpr ?_⟩
  rw [sum_costs_chain (by decide)]
  decide

/-- **A lost call.** With one more class, each argument on its own is still coercible, but it costs
more than the worst score and the total is uncoercible. -/
theorem chain_total_lost :
    (chain 261).2.Reachable ∧ rootParameters.length = (chainArguments 261).length ∧
      rootParameters.length ≤ Score.arityLimit ∧
      (∀ x ∈ rootParameters.zip (chainArguments 261),
        ((chain 261).2.score x.1 x.2).1.isCoercible = true ∧
          Score.worstArgument < ((chain 261).2.score x.1 x.2).1.cost) ∧
      (chain 261).2.types.callScore rootParameters (chainArguments 261) = .uncoercible := by
  have hc := isCoercible_chain 261 (by decide)
  refine ⟨(reachable_chain 261).1, length_chain 261, length_rootParameters,
    fun x hx => ⟨hc x hx, ?_⟩, ?_⟩
  · rw [eq_of_mem_chain hx, score_chainObject]
    decide
  · rw [Score.eq_uncoercible_iff, ← Bool.not_eq_true,
      TypeGraph.callScore_isCoercible_iff (length_chain 261), sum_costs_chain (by decide)]
    decide

end Host

end Interop
