import Interop.Proofs.Call.Totals
import Interop.Proofs.Types.Path

/-!
# The more specific parameter

An object scores as many levels as its type is below the parameter, on a shortest way. A parameter
that is below another one is nearer to the object if it lies on all ways up. An interface that is
implemented again lower down can be reached on a way that avoids its own subtypes.

* `TypeGraph.Nearer`: every way up to one type is longer than the shortest one to another type. This
  compares the distances (`WellFormed.nearer_iff`), and it holds if no way avoids the other type
  (`nearer_of_not_bypass`).
* `Host.AlwaysChooses`: the overload that calls by one object choose, whatever the order.
* `Host.Reachable.alwaysChooses_iff`: calls choose the more specific parameter just if it is nearer.
* `Host.shortcut`: a class that implements an interface and extends an implementation of a subtype
  of that interface (`Host.shortcut_chooses`).
-/

namespace Interop

/-! ## Ways up -/

namespace TypeGraph

variable {g : TypeGraph} {a b c t : TypeId} {n : Nat}

/-- Every way up from `c` to `a` is longer than some way up to `b`. -/
def Nearer (g : TypeGraph) (b a c : TypeId) : Prop :=
  ∀ n, g.Path a c n → ∃ m < n, g.Path b c m

/-- There is a way up to `a` that avoids `b`. -/
inductive Bypass (g : TypeGraph) (b a : TypeId) : TypeId → Prop
  | here (hne : a ≠ b) : Bypass g b a a
  | up {t parent : TypeId} (hne : t ≠ b) (edge : parent ∈ g.supertypes t)
      (way : Bypass g b a parent) : Bypass g b a t

/-- A way up to `a` on which `b` lies is longer than its part up to `b`. -/
theorem exists_lt_of_not_bypass (hne : a ≠ b) (hno : ¬ g.Bypass b a c) (path : g.Path a c n) :
    ∃ m < n, g.Path b c m := by
  induction path with
  | here => exact absurd (.here hne) hno
  | @up t parent n edge _ ih =>
    by_cases ht : t = b
    · subst ht
      exact ⟨0, Nat.succ_pos n, .here⟩
    · obtain ⟨m, hm, path⟩ := ih fun way => hno (.up ht edge way)
      exact ⟨m + 1, Nat.succ_lt_succ hm, .up edge path⟩

theorem nearer_of_not_bypass (hne : a ≠ b) (hno : ¬ g.Bypass b a c) : g.Nearer b a c :=
  fun _ path => exists_lt_of_not_bypass hne hno path

/-- **Nearer types.** They have the lower distances. -/
theorem WellFormed.nearer_iff (hg : g.WellFormed) (hb : g.admits b c = true) :
    g.Nearer b a c ↔ g.distance b (some c) < g.distance a (some c) := by
  rw [admits_iff] at hb
  constructor
  · intro hnear
    by_cases ha : g.distance a (some c) < unreachable
    · obtain ⟨m, hm, path⟩ := hnear _ (hg.path_of_distance_lt ha)
      exact Nat.lt_of_le_of_lt (hg.distance_le_of_path path) hm
    · omega
  · intro hlt n path
    exact ⟨_, Nat.lt_of_lt_of_le hlt (hg.distance_le_of_path path), hg.path_of_distance_lt hb⟩

end TypeGraph

/-! ## Scores of objects -/

/-- `v` is an object of the type `c`. -/
structure ScriptValue.IsObjectOf (v : ScriptValue) (c : TypeId) : Prop where
  kind : v.kind = .userdata
  object : v.object?.map NativeObject.type = some c

namespace TypeGraph

variable {g : TypeGraph} {a b c t : TypeId} {v : ScriptValue}

theorem score_object (hs : g.strategy t = .object t) (hv : v.IsObjectOf c) :
    g.score t v = .ofCost (g.distance t (some c)) := by
  rw [score, hs, Strategy.score, Strategy.objectScore, if_neg (by rw [hv.kind]; decide),
    Strategy.naturalType?, hv.kind]
  show Score.ofCost (g.distance t (v.object?.map NativeObject.type)) = _
  rw [hv.object]

theorem WellFormed.score_lt_iff (hg : g.WellFormed) (ha : g.strategy a = .object a)
    (hb : g.strategy b = .object b) (hv : v.IsObjectOf c) :
    g.score b v < g.score a v ↔ g.distance b (some c) < g.distance a (some c) := by
  have hle := hg.distance_le_unreachable a c
  have hle' := hg.distance_le_unreachable b c
  rw [Score.lt_iff, score_object ha hv, score_object hb hv, Score.cost_ofCost, Score.cost_ofCost]
  omega

/-- The total of one argument is its score. -/
theorem callScore_singleton (g : TypeGraph) (t : TypeId) (v : ScriptValue) :
    g.callScore [t] [v] = g.score t v := by
  refine Score.eq_of_cost ?_
  have hsum : (g.costs [t] [v]).sum = (g.score t v).cost := List.sum_singleton
  rw [cost_callScore rfl, hsum, Nat.min_eq_left (Score.cost_le _)]

theorem takesPart_unary {x : Callable} (hx : x.parameters = [t])
    (hc : (g.score t v).isCoercible = true) : g.takesPart [v] x = true := by
  rw [takesPart, Callable.arity, hx, callScore_singleton, hc]
  rfl

/-! ## Two candidates -/

variable {rules : CallRules} {overloads : OverloadSet} {arguments : List ScriptValue}
  {x y : Callable}

/-- Of two candidates, one with a lower total is chosen, if it takes part. -/
theorem choice_lower (ha : arguments.length ≤ rules.maxArity)
    (hxy : overloads.candidates.Perm [x, y]) (hy : g.takesPart arguments y = true)
    (hlt : g.callScore y.parameters arguments < g.callScore x.parameters arguments) :
    Choice g rules overloads arguments (.ok ⟨y, g.callScore y.parameters arguments⟩) := by
  have hne : g.callScore x.parameters arguments ≠ g.callScore y.parameters arguments := by
    intro heq
    rw [heq] at hlt
    exact Nat.lt_irrefl _ hlt
  have hlead : g.contendersAt arguments (g.callScore y.parameters arguments)
      overloads.candidates = [y] := by
    refine List.perm_singleton.mp (((hxy.filter _).filter _).trans (.of_eq ?_))
    rw [List.filter_filter]
    simp [hy, hne]
  refine .unique ha ⟨hlead ▸ List.cons_ne_nil y [], fun d hd => ?_⟩ hlead
  obtain ⟨hmem, -⟩ := mem_contenders_iff.mp hd
  rcases List.mem_pair.mp (hxy.mem_iff.mp hmem) with rfl | rfl
  · exact Nat.le_of_lt hlt
  · exact Nat.le_refl _

/-- Two candidates with one total are both in the lead, if they take part. -/
theorem lead_of_eq (hxy : overloads.candidates.Perm [x, y]) (hx : g.takesPart arguments x = true)
    (hy : g.takesPart arguments y = true)
    (heq : g.callScore x.parameters arguments = g.callScore y.parameters arguments) :
    g.IsLowest arguments (g.callScore y.parameters arguments) overloads.candidates ∧
      g.contendersAt arguments (g.callScore y.parameters arguments) overloads.candidates =
        overloads.candidates := by
  have hall : ∀ d ∈ overloads.candidates, g.takesPart arguments d = true ∧
      g.callScore d.parameters arguments = g.callScore y.parameters arguments := by
    intro d hd
    rcases List.mem_pair.mp (hxy.mem_iff.mp hd) with rfl | rfl
    · exact ⟨hx, heq⟩
    · exact ⟨hy, rfl⟩
  have hlead : g.contendersAt arguments (g.callScore y.parameters arguments)
      overloads.candidates = overloads.candidates := by
    rw [contendersAt, contenders, List.filter_filter, List.filter_eq_self]
    intro d hd
    simp [hall d hd]
  refine ⟨⟨?_, fun d hd => ?_⟩, hlead⟩
  · rw [hlead]
    exact List.cons_ne_nil _ _
  · exact Nat.le_of_eq (congrArg Score.cost (hall d (mem_contenders_iff.mp hd).1).2.symm)

end TypeGraph

/-! ## Calls by one object -/

namespace Host

variable {h : Host} {a b c : TypeId} {v : ScriptValue} {rules : CallRules}
  {overloads : OverloadSet} {x y : Callable}

/-- One overload takes a parameter of type `a` and the other one a parameter of type `b`. They are
declared in this order or in the other one, and the rules allow one argument at least. -/
structure TwoOverloads (rules : CallRules) (overloads : OverloadSet) (a b : TypeId)
    (x y : Callable) : Prop where
  arity : 1 ≤ rules.maxArity
  candidates : overloads.candidates.Perm [x, y]
  left : x.parameters = [a]
  right : y.parameters = [b]

theorem TwoOverloads.swap (hxy : TwoOverloads rules overloads a b x y) :
    TwoOverloads rules overloads b a y x where
  arity := hxy.arity
  candidates := hxy.candidates.trans (.swap y x [])
  left := hxy.right
  right := hxy.left

theorem TwoOverloads.arity_clamped (hxy : TwoOverloads rules overloads a b x y) :
    [v].length ≤ rules.clamped.maxArity :=
  Nat.le_min.mpr ⟨hxy.arity, Nat.le_of_ble_eq_true rfl⟩

/-- What a call by `v` comes to under some rules. -/
def outcome (h : Host) (rules : CallRules) (overloads : OverloadSet) (v : ScriptValue) :
    Except SelectionError Selected :=
  ((h.adopt rules).2.select (h.adopt rules).1 overloads [v]).1

/-- Every call by `v` over two overloads that take `a` and `b` chooses the one that takes `b`. -/
def AlwaysChooses (h : Host) (a b : TypeId) (v : ScriptValue) : Prop :=
  ∀ rules overloads x y, TwoOverloads rules overloads a b x y →
    h.outcome rules overloads v = .ok ⟨y, (h.score b v).1⟩

/-- Every call by `v` over two overloads that take `a` and `b` is a tie: it is rejected, or the
order of declaration decides. -/
def AlwaysTies (h : Host) (a b : TypeId) (v : ScriptValue) : Prop :=
  ∀ rules overloads x y, TwoOverloads rules overloads a b x y →
    h.outcome rules overloads v =
      match rules.tieBreak with
      | .reject => .error (.ambiguous overloads.name (h.score b v).1 overloads.candidates)
      | .declarationOrder => .ok ⟨overloads.first, (h.score b v).1⟩

theorem outcome_eq_iff {result : Except SelectionError Selected} :
    h.outcome rules overloads v = result ↔ Choice h.types rules.clamped overloads [v] result := by
  rw [outcome, h.select_adopt]
  exact CallRules.select_iff_choice

/-- The overload with the lower score is chosen. -/
theorem Reachable.alwaysChooses_of_lt (hr : h.Reachable)
    (hlt : (h.score b v).1 < (h.score a v).1) : h.AlwaysChooses a b v := by
  intro rules overloads x y hxy
  rw [hr.score_fst, hr.score_fst] at *
  have hc : (h.types.score b v).isCoercible = true :=
    Score.isCoercible_iff.mpr (Nat.lt_of_lt_of_le hlt (Score.cost_le _))
  rw [outcome_eq_iff, ← TypeGraph.callScore_singleton, ← hxy.right]
  refine TypeGraph.choice_lower hxy.arity_clamped hxy.candidates
    (TypeGraph.takesPart_unary hxy.right hc) ?_
  rw [hxy.left, hxy.right, TypeGraph.callScore_singleton, TypeGraph.callScore_singleton]
  exact hlt

/-- Equal scores leave a tie. -/
theorem Reachable.alwaysTies_of_eq (hr : h.Reachable) (heq : (h.score a v).1 = (h.score b v).1)
    (hc : (h.score b v).1.isCoercible = true) : h.AlwaysTies a b v := by
  intro rules overloads x y hxy
  rw [hr.score_fst, hr.score_fst] at *
  obtain ⟨hlowest, hlead⟩ := TypeGraph.lead_of_eq hxy.candidates
    (TypeGraph.takesPart_unary hxy.left (heq ▸ hc)) (TypeGraph.takesPart_unary hxy.right hc)
    (by simp only [hxy.left, hxy.right, TypeGraph.callScore_singleton, heq])
  rw [outcome_eq_iff]
  rw [hxy.right, TypeGraph.callScore_singleton] at hlowest hlead
  have hlength : overloads.candidates.length = 2 := hxy.candidates.length_eq
  cases ht : rules.tieBreak with
  | reject =>
    exact .ambiguous hxy.arity_clamped hlowest hlead (Nat.le_of_eq hlength.symm) ht
  | declarationOrder =>
    have hothers : overloads.others ≠ [] := by
      intro hnil
      rw [OverloadSet.candidates, hnil] at hlength
      cases hlength
    exact .first hxy.arity_clamped hlowest hlead hothers ht

/-- A public constructor of the root class with one parameter. -/
def constructorOf (t : TypeId) : Callable :=
  .constructor ⟨[t], ⟨true, false, false, false, false⟩, Builtin.object⟩

theorem twoOverloads_constructorOf (a b : TypeId) :
    TwoOverloads .default ⟨nameOfConstructors, constructorOf a, [constructorOf b]⟩ a b
      (constructorOf a) (constructorOf b) :=
  ⟨by decide, .refl _, rfl, rfl⟩

/-- Calls do not always choose each of two overloads. -/
theorem AlwaysChooses.asymm (hne : a ≠ b) (hab : h.AlwaysChooses a b v) :
    ¬ h.AlwaysChooses b a v := by
  intro hba
  have hxy := twoOverloads_constructorOf a b
  have heq := (hab _ _ _ _ hxy).symm.trans (hba _ _ _ _ hxy.swap)
  cases heq
  exact hne rfl

/-- Calls that always choose do not always tie. -/
theorem AlwaysChooses.not_alwaysTies (hab : h.AlwaysChooses a b v) : ¬ h.AlwaysTies a b v := by
  intro hties
  have hxy := twoOverloads_constructorOf a b
  have heq := (hab _ _ _ _ hxy).symm.trans (hties _ _ _ _ hxy)
  cases heq

theorem Reachable.score_lt_iff_nearer (hr : h.Reachable) (ha : h.types.strategy a = .object a)
    (hb : h.types.strategy b = .object b) (hc : h.types.admits b c = true)
    (hv : v.IsObjectOf c) :
    (h.score b v).1 < (h.score a v).1 ↔ h.types.Nearer b a c := by
  have hg := hr.sound.types
  rw [hr.score_fst, hr.score_fst, hg.score_lt_iff ha hb hv, hg.nearer_iff hc]

/-- If the second type is not nearer, the first one is, or both have one distance. -/
theorem Reachable.chooses_or_ties (hr : h.Reachable) (ha : h.types.strategy a = .object a)
    (hb : h.types.strategy b = .object b) (hc : h.types.admits b c = true)
    (hv : v.IsObjectOf c) (hno : ¬ h.types.Nearer b a c) :
    (h.types.Nearer a b c ∧ h.AlwaysChooses b a v) ∨ h.AlwaysTies a b v := by
  rw [hr.sound.types.nearer_iff hc, Nat.not_lt] at hno
  rw [TypeGraph.admits_iff] at hc
  rcases Nat.lt_or_eq_of_le hno with hlt | heq
  · have hca : h.types.admits a c = true := TypeGraph.admits_iff.mpr (Nat.lt_trans hlt hc)
    have hnear := (hr.sound.types.nearer_iff hca).mpr hlt
    exact .inl ⟨hnear, hr.alwaysChooses_of_lt ((hr.score_lt_iff_nearer hb ha hca hv).mpr hnear)⟩
  · refine .inr (hr.alwaysTies_of_eq ?_ ?_)
    · rw [hr.score_fst, hr.score_fst, TypeGraph.score_object ha hv, TypeGraph.score_object hb hv,
        heq]
    · rw [hr.score_fst, TypeGraph.score_object hb hv, Score.isCoercible_ofCost]
      exact hc

/-- **The more specific parameter.** Let two types be delivered by inheritance, and an object be
below the second of them. It scores strictly lower against the second one, and all calls by it over
an overload for each choose that one, just if every way up to the first type is longer than a
shortest one to the second. That is so if all ways up to the first type lead by the second. If not,
the first type is nearer and all calls choose it, or all calls are ties. -/
theorem Reachable.alwaysChooses_iff (hr : h.Reachable) (hne : a ≠ b)
    (ha : h.types.strategy a = .object a) (hb : h.types.strategy b = .object b)
    (hc : h.types.admits b c = true) (hv : v.IsObjectOf c) :
    ((h.score b v).1 < (h.score a v).1 ↔ h.types.Nearer b a c) ∧
      (h.AlwaysChooses a b v ↔ h.types.Nearer b a c) ∧
      (¬ h.types.Bypass b a c → h.types.Nearer b a c) ∧
      (¬ h.types.Nearer b a c →
        (h.types.Nearer a b c ∧ h.AlwaysChooses b a v) ∨ h.AlwaysTies a b v) := by
  have hscore := hr.score_lt_iff_nearer ha hb hc hv
  have hrest := hr.chooses_or_ties ha hb hc hv
  refine ⟨hscore, ⟨fun hall => ?_, fun hnear => hr.alwaysChooses_of_lt (hscore.mpr hnear)⟩,
    TypeGraph.nearer_of_not_bypass hne, hrest⟩
  by_contra hno
  rcases hrest hno with ⟨-, hother⟩ | hties
  · exact hall.asymm hne hother
  · exact hall.not_alwaysTies hties

/-! ## An interface that is implemented again -/

/-- An object of a type that scripts hold. -/
def objectOf (t : TypeId) : ScriptValue := (Value.userdata ⟨t, "", 1⟩).script .initial 2

theorem isObjectOf_objectOf (t : TypeId) : (objectOf t).IsObjectOf t := ⟨rfl, rfl⟩

/-- An object of the last class is nearer to the second interface. The first one can be reached on a
way that avoids the second, but that way is longer. -/
theorem alwaysChooses_diamond :
    diamond.Reachable ∧ diamond.types.admits ⟨26⟩ ⟨28⟩ = true ∧
      diamond.types.Bypass ⟨26⟩ ⟨25⟩ ⟨28⟩ ∧ diamond.types.Nearer ⟨26⟩ ⟨25⟩ ⟨28⟩ ∧
      (diamond.score ⟨26⟩ (objectOf ⟨28⟩)).1 < (diamond.score ⟨25⟩ (objectOf ⟨28⟩)).1 ∧
      diamond.AlwaysChooses ⟨25⟩ ⟨26⟩ (objectOf ⟨28⟩) := by
  have hc : diamond.types.admits ⟨26⟩ ⟨28⟩ = true := by decide
  have hfirst : diamond.types.strategy ⟨25⟩ = .object ⟨25⟩ :=
    TypeGraph.strategy_of_no_element (by decide) (by decide)
  have hsecond : diamond.types.strategy ⟨26⟩ = .object ⟨26⟩ :=
    TypeGraph.strategy_of_no_element (by decide) (by decide)
  have hall := reachable_diamond.alwaysChooses_iff (by decide) hfirst hsecond hc
    (isObjectOf_objectOf ⟨28⟩)
  have hnear : diamond.types.Nearer ⟨26⟩ ⟨25⟩ ⟨28⟩ :=
    (reachable_diamond.sound.types.nearer_iff hc).mpr (by decide)
  have hderived : ⟨27⟩ ∈ diamond.types.supertypes ⟨28⟩ := by decide
  have hbase : ⟨25⟩ ∈ diamond.types.supertypes ⟨27⟩ := by decide
  have way : diamond.types.Bypass ⟨26⟩ ⟨25⟩ ⟨28⟩ :=
    .up (by decide) hderived (.up (by decide) hbase (.here (by decide)))
  exact ⟨reachable_diamond, hc, way, hnear, hall.1.mpr hnear, hall.2.1.mpr hnear⟩

/-- A new host with two interfaces, the second of which extends the first, and two classes, the
second of which extends the first. The first class implements the second interface, and the second
class the first interface once more. -/
def shortcut : Host :=
  let (shape, h) := initial.declareInterface "Shape" []
  let (square, h) := h.declareInterface "Square" [shape]
  let (tile, h) := h.declareClass "Tile" none [square]
  (h.declareClass "Stone" tile [shape]).2

theorem reachable_shortcut : shortcut.Reachable := by
  have shape := Reachable.step .initial (.declareInterface "Shape" [] (by decide))
  have square := shape.step (.declareInterface "Square" [⟨25⟩] (by decide))
  have tile := square.step (.declareClass "Tile" none [⟨26⟩] (by decide) (by decide))
  exact tile.step (.declareClass "Stone" (some ⟨27⟩) [⟨25⟩] (by decide) (by decide))

/-- The last class is below the second interface and that one below the first, but an object of the
class is nearer to the first. It scores higher against the second, and all calls choose the
first. -/
theorem shortcut_chooses :
    shortcut.Reachable ∧ (⟨25⟩ : TypeId) ≠ ⟨26⟩ ∧
      shortcut.types.strategy ⟨25⟩ = .object ⟨25⟩ ∧
      shortcut.types.strategy ⟨26⟩ = .object ⟨26⟩ ∧
      shortcut.types.admits ⟨26⟩ ⟨28⟩ = true ∧ shortcut.types.admits ⟨25⟩ ⟨26⟩ = true ∧
      (objectOf ⟨28⟩).IsObjectOf ⟨28⟩ ∧
      (shortcut.score ⟨25⟩ (objectOf ⟨28⟩)).1 = .ofCost 1 ∧
      (shortcut.score ⟨26⟩ (objectOf ⟨28⟩)).1 = .ofCost 2 ∧
      shortcut.AlwaysChooses ⟨26⟩ ⟨25⟩ (objectOf ⟨28⟩) := by
  have hfirst : shortcut.types.strategy ⟨25⟩ = .object ⟨25⟩ :=
    TypeGraph.strategy_of_no_element (by decide) (by decide)
  have hsecond : shortcut.types.strategy ⟨26⟩ = .object ⟨26⟩ :=
    TypeGraph.strategy_of_no_element (by decide) (by decide)
  have hv := isObjectOf_objectOf ⟨28⟩
  have hlow : (shortcut.score ⟨25⟩ (objectOf ⟨28⟩)).1 = .ofCost 1 := by
    rw [reachable_shortcut.score_fst, TypeGraph.score_object hfirst hv]
    decide
  have hhigh : (shortcut.score ⟨26⟩ (objectOf ⟨28⟩)).1 = .ofCost 2 := by
    rw [reachable_shortcut.score_fst, TypeGraph.score_object hsecond hv]
    decide
  refine ⟨reachable_shortcut, by decide, hfirst, hsecond, by decide, by decide, hv, hlow, hhigh,
    reachable_shortcut.alwaysChooses_of_lt ?_⟩
  rw [hlow, hhigh]
  decide

end Host

end Interop
