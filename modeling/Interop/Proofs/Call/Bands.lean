import Interop.Proofs.Call.Totals

/-!
# Safe and lossy calls

Below `lossy` an argument is delivered safely. Its band is apart from that of lossy arguments, but
the bands are those of single scores: safe scores that are added up can come to a lossy one.

* `TypeGraph.SafeCall`, `TypeGraph.LossyCall`: calls without and with a lossy argument.
* `TypeGraph.SafeCall.sum_costs_le`: what the arguments of a safe call cost together.
* `Host.safe_before_lossy_iff`: for how many arguments safe calls come before lossy ones.
* `Host.lossy_chosen`: a choice of the lossy one of two calls.
-/

namespace Interop

namespace TypeGraph

variable {g : TypeGraph} {parameters : List TypeId} {arguments : List ScriptValue} {d : Nat}

/-! ## Safe calls -/

/-- A call all of whose arguments score below `lossy`. Where inheritance measures an argument, it is
at most `d` levels below its parameter. -/
structure SafeCall (g : TypeGraph) (d : Nat) (parameters : List TypeId)
    (arguments : List ScriptValue) : Prop where
  length : parameters.length = arguments.length
  safe : ∀ x ∈ parameters.zip arguments, g.score x.1 x.2 < .lossy
  near : ∀ x ∈ parameters.zip arguments, ∀ k ∈ g.levels? x.1 x.2, k ≤ d

/-- A coercible call with an argument that scores `lossy` or worse. -/
structure LossyCall (g : TypeGraph) (parameters : List TypeId) (arguments : List ScriptValue) :
    Prop where
  length : parameters.length = arguments.length
  coercible : (g.callScore parameters arguments).isCoercible = true
  lossy : ∃ x ∈ parameters.zip arguments, .lossy ≤ g.score x.1 x.2

/-- A safe argument costs at most what nil costs in place of a reference, or its distance. -/
theorem cost_le_of_safe {t : TypeId} {v : ScriptValue} (hs : g.score t v < .lossy)
    (hd : ∀ k ∈ g.levels? t v, k ≤ d) :
    (g.score t v).cost ≤ max Score.nilAsNull.cost d := by
  rw [Score.lt_iff] at hs
  cases hk : (g.strategy t).levels? g v with
  | none =>
    rcases Strategy.cost_of_no_levels hk with hle | ⟨hge, -⟩ | heq
    · exact Nat.le_trans hle (Nat.le_max_left _ _)
    · exact absurd hs (Nat.not_lt.mpr hge)
    · rw [score, heq] at hs
      exact absurd hs (by decide)
  | some k =>
    have hle := hd k hk
    rw [score, Strategy.score_of_levels hk, Score.cost_ofCost]
    omega

theorem SafeCall.sum_costs_le (hs : g.SafeCall d parameters arguments) :
    (g.costs parameters arguments).sum ≤ arguments.length * max Score.nilAsNull.cost d := by
  have hlen : (g.costs parameters arguments).length = arguments.length := by
    rw [costs, List.length_map, List.length_zip, hs.length, Nat.min_self]
  rw [← hlen]
  refine List.sum_le_card_nsmul _ _ fun c hc => ?_
  obtain ⟨x, hx, rfl⟩ := List.mem_map.mp hc
  exact cost_le_of_safe (hs.safe x hx) (hs.near x hx)

theorem LossyCall.lossy_le (hl : g.LossyCall parameters arguments) :
    .lossy ≤ g.callScore parameters arguments := by
  obtain ⟨x, hx, hle⟩ := hl.lossy
  have hmem : (g.score x.1 x.2).cost ∈ g.costs parameters arguments :=
    List.mem_map_of_mem (f := fun x => (g.score x.1 x.2).cost) hx
  have hsum := List.single_le_sum (fun _ _ => Nat.zero_le _) _ hmem
  rw [Score.le_iff] at hle ⊢
  rw [cost_callScore hl.length]
  exact Nat.le_min.mpr ⟨Nat.le_trans hle hsum, by decide⟩

/-- A safe call of few enough arguments stays below `lossy`. -/
theorem SafeCall.callScore_lt (hs : g.SafeCall d parameters arguments)
    (hn : arguments.length * max Score.nilAsNull.cost d < Score.lossy.cost) :
    g.callScore parameters arguments < .lossy := by
  rw [Score.lt_iff, cost_callScore hs.length]
  exact Nat.lt_of_le_of_lt (Nat.min_le_left _ _) (Nat.lt_of_le_of_lt hs.sum_costs_le hn)

/-! ## Safe scores that add up -/

section Repeated

variable {v : ScriptValue} {p q : TypeId} {k n : Nat}

/-- `v` is safe for `p` at a cost of `k`. It fits `q` exactly, and as text it is lossy. -/
structure Overtaken (g : TypeGraph) (d : Nat) (v : ScriptValue) (p q : TypeId) (k : Nat) :
    Prop where
  safe : g.score p v = .ofCost k
  near : ∀ l ∈ g.levels? p v, l ≤ d
  exact : g.score q v = .exact
  lossy : g.score Builtin.text v = .lossy

namespace Overtaken

variable (ho : g.Overtaken d v p q k)

include ho

theorem cost_eq (hk : k < Score.lossy.cost) : (g.score p v).cost = k := by
  rw [ho.safe, Score.cost_ofCost]
  exact Nat.min_eq_left (Nat.le_trans (Nat.le_of_lt hk) (by decide))

theorem safeCall (hk : k < Score.lossy.cost) (n : Nat) :
    g.SafeCall d (List.replicate n p) (List.replicate n v) where
  length := by rw [List.length_replicate, List.length_replicate]
  safe x hx := by
    rw [eq_of_mem_zip_replicate hx, Score.lt_iff, ho.cost_eq hk]
    exact hk
  near x hx := by
    rw [eq_of_mem_zip_replicate hx]
    exact ho.near

/-- The total of so many arguments, one of which is delivered as text. -/
theorem callScore_text (n : Nat) :
    g.callScore (Builtin.text :: List.replicate n q) (List.replicate (n + 1) v) = .lossy := by
  have hl : (Builtin.text :: List.replicate n q).length = (List.replicate (n + 1) v).length := by
    simp
  refine Score.eq_of_cost ?_
  rw [cost_callScore hl, List.replicate_succ, costs, List.zip_cons_cons, List.map_cons,
    List.sum_cons, ← costs, sum_costs_replicate, ho.exact, ho.lossy]
  simp [unreachable]

theorem lossyCall (n : Nat) :
    g.LossyCall (Builtin.text :: List.replicate n q) (List.replicate (n + 1) v) where
  length := by simp
  coercible := by
    rw [ho.callScore_text]
    decide
  lossy := by
    refine ⟨(Builtin.text, v), ?_, ?_⟩
    · rw [List.replicate_succ, List.zip_cons_cons]
      exact List.mem_cons_self
    · rw [ho.lossy]
      exact Nat.le_refl _

/-- Within the limit on arguments, the total of safe ones is their number times their cost. -/
theorem cost_callScore (hk : k < Score.lossy.cost) (hn : n ≤ Score.arityLimit) :
    (g.callScore (List.replicate n p) (List.replicate n v)).cost = n * k := by
  have hle : n * k ≤ Score.arityLimit * Score.lossy.cost :=
    Nat.mul_le_mul hn (Nat.le_of_lt hk)
  rw [TypeGraph.cost_callScore (ho.safeCall hk n).length, sum_costs_replicate, ho.cost_eq hk]
  exact Nat.min_eq_left (Nat.le_trans hle (by decide))

end Overtaken

end Repeated

end TypeGraph

namespace Host

variable {h : Host} {n d : Nat}

/-- Safe calls of `n` arguments come before lossy ones, as long as no distance in them is above
`d`: they have lower totals, and no lossy call is chosen where there is a safe one. -/
def SafeBeforeLossy (h : Host) (n d : Nat) : Prop :=
  ∀ arguments : List ScriptValue, arguments.length = n →
    ∀ safe : Callable, h.types.SafeCall d safe.parameters arguments →
      (h.types.callScore safe.parameters arguments).isCoercible = true →
        (∀ lossy : Callable, h.types.LossyCall lossy.parameters arguments →
          h.types.callScore safe.parameters arguments <
            h.types.callScore lossy.parameters arguments) ∧
        ∀ rules overloads selected, safe ∈ overloads.candidates →
          ((h.adopt rules).2.select (h.adopt rules).1 overloads arguments).1 = .ok selected →
            ¬ h.types.LossyCall selected.member.parameters arguments

theorem safeBeforeLossy_of_lt (h : Host)
    (hlt : n * max Score.nilAsNull.cost d < Score.lossy.cost) : h.SafeBeforeLossy n d := by
  rintro arguments rfl safe hs hc
  have hsafe := hs.callScore_lt hlt
  refine ⟨fun lossy hl => Nat.lt_of_lt_of_le hsafe hl.lossy_le, ?_⟩
  intro rules overloads selected hmem ok hl
  rw [h.select_adopt, CallRules.select_iff_choice] at ok
  have hle := ok.score_le (TypeGraph.mem_contenders_iff.mpr ⟨hmem, hs.length, hc⟩)
  rw [ok.score_eq.2] at hle
  exact Nat.lt_irrefl _ (Nat.lt_of_lt_of_le hsafe (Nat.le_trans hl.lossy_le hle))

/-! ## How many arguments are too many -/

/-- A call of safe arguments that cost `k` each is not before the lossy one that overtakes it, if
there are so many of them that they cost as much as a lossy one. -/
theorem not_safeBeforeLossy {v : ScriptValue} {p q : TypeId} {k : Nat}
    (ho : h.types.Overtaken d v p q k) (hk : k < Score.lossy.cost) (hn : n ≤ Score.arityLimit)
    (hge : Score.lossy.cost ≤ n * k) : ¬ h.SafeBeforeLossy n d := by
  intro hb
  obtain ⟨m, rfl⟩ : ∃ m, n = m + 1 := Nat.exists_eq_succ_of_ne_zero (by rintro rfl; simp at hge)
  have hcost := ho.cost_callScore hk hn
  have hc : (h.types.callScore (List.replicate (m + 1) p) (List.replicate (m + 1) v)).isCoercible =
      true := by
    have hlt := Nat.mul_lt_mul_of_le_of_lt hn hk (by decide)
    rw [Score.isCoercible_iff, hcost]
    exact Nat.lt_of_lt_of_le hlt (by decide)
  have hlt := (hb (List.replicate (m + 1) v) List.length_replicate
    (.constructor ⟨List.replicate (m + 1) p, ⟨true, false, false, false, false⟩, Builtin.object⟩)
    (ho.safeCall hk (m + 1)) hc).1
    (.constructor ⟨Builtin.text :: List.replicate m q, ⟨true, false, false, false, false⟩,
      Builtin.object⟩)
    (ho.lossyCall m)
  rw [Callable.parameters, Callable.parameters, ho.callScore_text, Score.lt_iff, hcost] at hlt
  exact Nat.not_lt.mpr hge hlt

/-- A table whose first element is nil. -/
def nilTable : ScriptValue := (Value.table #[.nil]).script .initial 1

theorem strategy_objects :
    (ofArray Builtin.object).types.strategy ⟨25⟩ = .array Builtin.object (.object Builtin.object) := by
  rw [TypeGraph.strategy_of_element (e := Builtin.object) (by decide) (by decide) (by decide),
    TypeGraph.strategy_of_no_element (by decide) (by decide)]

/-- As an array of objects, a table costs what its first element costs, and no distance is
measured if that is nil. -/
theorem overtaken_nilTable : (ofArray Builtin.object).types.Overtaken d nilTable ⟨25⟩ Builtin.table
    Score.nilAsNull.cost where
  safe := by
    rw [TypeGraph.score, strategy_objects]
    rfl
  near := by
    rw [TypeGraph.levels?, strategy_objects]
    intro k hk
    cases hk
  exact := by
    rw [TypeGraph.score, TypeGraph.strategy_of_no_element (by decide) (by decide)]
    decide
  lossy := by
    rw [TypeGraph.score, TypeGraph.strategy_of_known (s := .text .text) (by decide)]
    rfl

theorem strategy_chain (count : Nat) : (chain (count + 1)).2.types.strategy (chain (count + 1)).1 =
    .object (chain (count + 1)).1 := by
  refine TypeGraph.strategy_of_no_element ?_ ((chain count).2.types.element?_declareClass _ _ _)
  cases hk : Strategy.known? (chain (count + 1)).1 with
  | none => rfl
  | some s =>
    -- the class is younger than all known types
    have hlast : (chain count).2.types.Has Builtin.bytes :=
      (reachable_chain count).1.sound.types.known.has (by decide)
    have hknown : (chain (count + 1)).1.index < TypeGraph.initial.size := Strategy.has_of_known hk
    exact absurd (Nat.lt_of_lt_of_le hknown hlast) (Nat.lt_irrefl _)

/-- An object of the last class of a chain is as many levels below the root class as there are
classes, and none below its own class. -/
theorem overtaken_chainObject (n : Nat) :
    (chain (n + 1)).2.types.Overtaken (n + 1) (chainObject (n + 1)) Builtin.object
      (chain (n + 1)).1 (n + 1) where
  safe := by
    rw [← (reachable_chain (n + 1)).1.score_fst]
    exact score_chainObject (n + 1)
  near l hl := by
    have hr := (reachable_chain (n + 1)).1
    rw [TypeGraph.levels?, strategy_object hr] at hl
    cases hl
    show (chain (n + 1)).2.types.distance Builtin.object (some (chain (n + 1)).1) ≤ n + 1
    rw [distance_chain]
    exact Nat.min_le_left _ _
  exact := by
    have hg := (reachable_chain (n + 1)).1.sound.types
    rw [TypeGraph.score, strategy_chain]
    show Score.ofCost ((chain (n + 1)).2.types.distance _ (some (chain (n + 1)).1)) = _
    rw [hg.distance_eq, if_pos rfl]
    rfl
  lossy := by
    rw [TypeGraph.score, TypeGraph.strategy_of_known (s := .text .text) (by decide)]
    rfl

/-- **Safe before lossy.** Let no distance in safe calls of `n` arguments be above `d`. Then they
come before lossy calls, in every host that a run comes to, just if so many arguments of the highest
safe score cost less than a single lossy one. Without a bound on distances `d` is the highest safe
score, and the calls may have one argument. -/
theorem safe_before_lossy_iff (hn : n ≤ Score.arityLimit) (hd : d < Score.lossy.cost) :
    (∀ h : Host, h.Reachable → h.SafeBeforeLossy n d) ↔
      n * max Score.nilAsNull.cost d < Score.lossy.cost := by
  refine ⟨fun hall => Nat.not_le.mp fun hge => ?_, fun hlt h _ => h.safeBeforeLossy_of_lt hlt⟩
  rcases Nat.le_total d Score.nilAsNull.cost with hle | hle
  · rw [Nat.max_eq_left hle] at hge
    exact not_safeBeforeLossy overtaken_nilTable (by decide) hn hge
      (hall _ (reachable_ofArray (by decide)))
  · rw [Nat.max_eq_right hle] at hge
    obtain ⟨m, rfl⟩ : ∃ m, d = m + 1 := Nat.exists_eq_succ_of_ne_zero (by rintro rfl; cases hle)
    exact not_safeBeforeLossy (overtaken_chainObject m) hd hn hge
      (hall _ (reachable_chain (m + 1)).1)

/-! ## Nils before a number -/

/-- So many nils and then a number that no byte holds. -/
def nilsAndNumber (count : Nat) : List ScriptValue :=
  List.replicate count .nil ++ [(Value.integer 1000).script .initial 1]

/-- Takes each nil in place of an object, and the number as a double. -/
def objectsAndDouble (count : Nat) : Callable :=
  .constructor ⟨List.replicate count Builtin.object ++ [Builtin.primitive .double],
    ⟨true, false, false, false, false⟩, Builtin.object⟩

/-- Takes each nil as a truth value, and the number as a byte. -/
def truthsAndByte (count : Nat) : Callable :=
  .constructor ⟨List.replicate count (Builtin.primitive .boolean) ++ [Builtin.primitive .byte],
    ⟨true, false, false, false, false⟩, Builtin.object⟩

theorem score_nil_object : initial.types.score Builtin.object .nil = .nilAsNull := by
  rw [TypeGraph.score, strategy_object .initial]
  rfl

theorem scores_nilsAndNumber :
    initial.types.score (Builtin.primitive .boolean) .nil = .ofCost 1 ∧
      initial.types.score (Builtin.primitive .double) ((Value.integer 1000).script .initial 1) =
        .ofCost 2 ∧
      initial.types.score (Builtin.primitive .byte) ((Value.integer 1000).script .initial 1) =
        .lossy := by
  refine ⟨?_, ?_, ?_⟩
  · rw [TypeGraph.score, TypeGraph.strategy_of_known (s := .boolean) (by decide)]
    rfl
  · rw [TypeGraph.score, TypeGraph.strategy_of_known (s := .numeric .double) (by decide)]
    rfl
  · rw [TypeGraph.score, TypeGraph.strategy_of_known (s := .numeric .byte) (by decide)]
    decide

theorem mem_zip_nilsAndNumber {count : Nat} {t u : TypeId} {x : TypeId × ScriptValue} :
    x ∈ (List.replicate count t ++ [u]).zip (nilsAndNumber count) ↔
      x ∈ (List.replicate count t).zip (List.replicate count .nil) ∨
        x = (u, (Value.integer 1000).script .initial 1) := by
  rw [nilsAndNumber, List.zip_append (by simp)]
  simp

theorem sum_costs_nilsAndNumber (count : Nat) (t u : TypeId) :
    (initial.types.costs (List.replicate count t ++ [u]) (nilsAndNumber count)).sum =
      count * (initial.types.score t .nil).cost +
        (initial.types.score u ((Value.integer 1000).script .initial 1)).cost := by
  rw [nilsAndNumber, TypeGraph.costs_append (by simp), List.sum_append,
    TypeGraph.sum_costs_replicate]
  rfl

theorem length_nilsAndNumber (count : Nat) (t u : TypeId) :
    (List.replicate count t ++ [u]).length = (nilsAndNumber count).length := by
  simp [nilsAndNumber]

theorem safeCall_nilsAndNumber (count : Nat) :
    initial.types.SafeCall 0 (objectsAndDouble count).parameters (nilsAndNumber count) where
  length := length_nilsAndNumber count _ _
  safe x hx := by
    rcases mem_zip_nilsAndNumber.mp hx with hx | rfl
    · rw [TypeGraph.eq_of_mem_zip_replicate hx, score_nil_object]
      decide
    · rw [scores_nilsAndNumber.2.1]
      decide
  near x hx := by
    rcases mem_zip_nilsAndNumber.mp hx with hx | rfl
    · rw [TypeGraph.eq_of_mem_zip_replicate hx, TypeGraph.levels?, strategy_object .initial]
      nofun
    · rw [TypeGraph.levels?, TypeGraph.strategy_of_known (s := .numeric .double) (by decide)]
      nofun

theorem callScore_nilsAndNumber (count : Nat) :
    initial.types.callScore (objectsAndDouble count).parameters (nilsAndNumber count) =
        .ofCost (count * 16 + 2) ∧
      initial.types.callScore (truthsAndByte count).parameters (nilsAndNumber count) =
        .ofCost (count + 256) := by
  obtain ⟨hboolean, hdouble, hbyte⟩ := scores_nilsAndNumber
  constructor
  · refine Score.eq_of_cost ?_
    rw [objectsAndDouble, Callable.parameters,
      TypeGraph.cost_callScore (length_nilsAndNumber count _ _), sum_costs_nilsAndNumber,
      score_nil_object, hdouble]
    rfl
  · refine Score.eq_of_cost ?_
    rw [truthsAndByte, Callable.parameters,
      TypeGraph.cost_callScore (length_nilsAndNumber count _ _), sum_costs_nilsAndNumber,
      hboolean, hbyte]
    simp [unreachable]

theorem lossyCall_nilsAndNumber {count : Nat} (hc : count ≤ Score.arityLimit) :
    initial.types.LossyCall (truthsAndByte count).parameters (nilsAndNumber count) where
  length := length_nilsAndNumber count _ _
  coercible := by
    rw [(callScore_nilsAndNumber count).2, Score.isCoercible_ofCost]
    have : Score.arityLimit + 256 < unreachable := by decide
    omega
  lossy := by
    refine ⟨_, mem_zip_nilsAndNumber.mpr (.inr rfl), ?_⟩
    rw [scores_nilsAndNumber.2.2]
    exact Nat.le_refl _

/-- Up to fifteen arguments may cost as much as nil in place of an object. -/
theorem safe_before_lossy_nils :
    15 ≤ Score.arityLimit ∧ 16 < Score.lossy.cost ∧ initial.Reachable ∧
      initial.types.SafeCall 16 (objectsAndDouble 14).parameters (nilsAndNumber 14) ∧
      initial.types.LossyCall (truthsAndByte 14).parameters (nilsAndNumber 14) ∧
      initial.types.callScore (objectsAndDouble 14).parameters (nilsAndNumber 14) <
        initial.types.callScore (truthsAndByte 14).parameters (nilsAndNumber 14) := by
  have hs : initial.types.SafeCall 16 (objectsAndDouble 14).parameters (nilsAndNumber 14) :=
    { safeCall_nilsAndNumber 14 with
      near := fun x hx k hk => Nat.le_trans ((safeCall_nilsAndNumber 14).near x hx k hk) (by decide) }
  have hl := lossyCall_nilsAndNumber (show 14 ≤ Score.arityLimit by decide)
  have hbefore := (safe_before_lossy_iff (n := 15) (d := 16) (by decide) (by decide)).mpr (by decide)
  refine ⟨by decide, by decide, .initial, hs, hl,
    (hbefore initial .initial _ (by decide) _ hs ?_).1 _ hl⟩
  rw [(callScore_nilsAndNumber 14).1]
  decide

/-- **A lossy choice.** With three more nils the lossy call has the lower total, and it is chosen
although all arguments of the other one are safe. -/
theorem lossy_chosen :
    initial.Reachable ∧ (nilsAndNumber 17).length ≤ Score.arityLimit ∧
      initial.types.SafeCall 0 (objectsAndDouble 17).parameters (nilsAndNumber 17) ∧
      (initial.types.callScore (objectsAndDouble 17).parameters (nilsAndNumber 17)).isCoercible =
        true ∧
      initial.types.LossyCall (truthsAndByte 17).parameters (nilsAndNumber 17) ∧
      initial.types.callScore (truthsAndByte 17).parameters (nilsAndNumber 17) <
        initial.types.callScore (objectsAndDouble 17).parameters (nilsAndNumber 17) ∧
      CallRules.default.select initial.types
          ⟨nameOfConstructors, objectsAndDouble 17, [truthsAndByte 17]⟩ (nilsAndNumber 17) =
        .ok ⟨truthsAndByte 17, .ofCost 273⟩ := by
  obtain ⟨hsafe, hlossy⟩ := callScore_nilsAndNumber 17
  refine ⟨.initial, by decide, safeCall_nilsAndNumber 17, ?_,
    lossyCall_nilsAndNumber (by decide), ?_, ?_⟩
  · rw [hsafe]
    decide
  · rw [hsafe, hlossy]
    decide
  · simp only [CallRules.select, Leaders.among, OverloadSet.candidates, List.foldl,
      Leaders.consider, hsafe, hlossy]
    rfl

end Host

end Interop
