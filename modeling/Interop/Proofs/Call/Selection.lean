import Interop.Host.Basic
import Interop.Proofs.Delivery.Score
import Interop.Proofs.Delivery.Store

/-!
# The choice is the unique minimum

One pass over the candidates finds those with the lowest total. What is chosen depends on the
candidates that take part, their totals and their order, and on nothing else.

* `TypeGraph.contenders`: the candidates that take part in a choice.
* `Leaders.Right`: what the pass knows after some of the candidates. It holds at the start, one more
  candidate keeps it (`Right.consider`), and so the whole pass does (`right_among`).
* `Choice`: which outcome a choice should have.
* `CallRules.select_iff_choice`: the outcome is that one, and no other.
-/

namespace Interop

/-! ## The lowest total -/

namespace TypeGraph

variable (g : TypeGraph) (arguments : List ScriptValue)

/-- Whether a candidate has as many parameters as there are arguments and a coercible total. -/
def takesPart (c : Callable) : Bool :=
  c.arity = arguments.length && (g.callScore c.parameters arguments).isCoercible

/-- The candidates that take part in a choice, in the order of their declaration. -/
def contenders (candidates : List Callable) : List Callable :=
  candidates.filter (g.takesPart arguments)

/-- The candidates that take part with the given total, in the order of their declaration. -/
def contendersAt (total : Score) (candidates : List Callable) : List Callable :=
  (g.contenders arguments candidates).filter fun c => g.callScore c.parameters arguments = total

/-- `total` is the lowest total of the candidates that take part. -/
structure IsLowest (total : Score) (candidates : List Callable) : Prop where
  attained : g.contendersAt arguments total candidates ≠ []
  least : ∀ c ∈ g.contenders arguments candidates, total ≤ g.callScore c.parameters arguments

variable {g arguments} {total : Score} {candidates : List Callable} {c : Callable}

theorem mem_contenders_iff : c ∈ g.contenders arguments candidates ↔
    c ∈ candidates ∧ c.arity = arguments.length ∧
      (g.callScore c.parameters arguments).isCoercible = true := by
  simp [contenders, takesPart]

theorem contenders_concat (h : g.takesPart arguments c = true) :
    g.contenders arguments (candidates ++ [c]) = g.contenders arguments candidates ++ [c] := by
  simp [contenders, h]

theorem contenders_concat_of_not (h : g.takesPart arguments c = false) :
    g.contenders arguments (candidates ++ [c]) = g.contenders arguments candidates := by
  simp [contenders, h]

theorem mem_contendersAt_iff : c ∈ g.contendersAt arguments total candidates ↔
    c ∈ g.contenders arguments candidates ∧ g.callScore c.parameters arguments = total := by
  simp [contendersAt]

theorem contendersAt_concat (h : g.takesPart arguments c = true) (total : Score) :
    g.contendersAt arguments total (candidates ++ [c]) =
      g.contendersAt arguments total candidates ++
        if g.callScore c.parameters arguments = total then [c] else [] := by
  rw [contendersAt, contenders_concat h, List.filter_append, contendersAt]
  congr 1
  split <;> simp [*]

theorem contendersAt_eq_nil_of_lt
    (h : ∀ c ∈ g.contenders arguments candidates, total < g.callScore c.parameters arguments) :
    g.contendersAt arguments total candidates = [] := by
  refine List.eq_nil_iff_forall_not_mem.mpr fun c hc => ?_
  obtain ⟨hmem, rfl⟩ := mem_contendersAt_iff.mp hc
  have hlt := h c hmem
  rw [Score.lt_iff] at hlt
  omega

theorem contendersAt_eq_nil (h : g.contenders arguments candidates = []) :
    g.contendersAt arguments total candidates = [] := by
  rw [contendersAt, h]
  rfl

/-- There is one lowest total at most. -/
theorem IsLowest.unique {total' : Score} (h : g.IsLowest arguments total candidates)
    (h' : g.IsLowest arguments total' candidates) : total = total' := by
  obtain ⟨c, hc⟩ := List.exists_mem_of_ne_nil _ h.attained
  obtain ⟨c', hc'⟩ := List.exists_mem_of_ne_nil _ h'.attained
  obtain ⟨hmem, rfl⟩ := mem_contendersAt_iff.mp hc
  obtain ⟨hmem', rfl⟩ := mem_contendersAt_iff.mp hc'
  have hle := h.least c' hmem'
  have hge := h'.least c hmem
  rw [Score.le_iff] at hle hge
  exact Score.eq_of_cost (by omega)

theorem IsLowest.contenders_ne_nil (h : g.IsLowest arguments total candidates) :
    g.contenders arguments candidates ≠ [] :=
  fun hn => h.attained (contendersAt_eq_nil hn)

end TypeGraph

/-! ## One pass -/

namespace Leaders

variable {g : TypeGraph} {arguments : List ScriptValue} {l : Leaders} {done rest : List Callable}
  {c : Callable}

/-- `l` holds the lowest total of the candidates `done` and the candidates that have it. As long as
none of them takes part, there is no total yet. -/
structure Right (g : TypeGraph) (arguments : List ScriptValue) (done : List Callable)
    (l : Leaders) : Prop where
  leading : l.candidates = g.contendersAt arguments l.score done
  least : ∀ c ∈ g.contenders arguments done, l.score ≤ g.callScore c.parameters arguments
  unled : l.candidates = [] → l.score = .uncoercible ∧ g.contenders arguments done = []

theorem right_none : Right g arguments [] none where
  leading := rfl
  least := nofun
  unled _ := ⟨rfl, rfl⟩

theorem consider_of_not (h : g.takesPart arguments c = false) : l.consider g arguments c = l := by
  unfold consider
  unfold TypeGraph.takesPart at h
  by_cases ha : c.arity = arguments.length
  · simp_all
  · rw [if_pos ha]

theorem consider_of_takesPart (h : g.takesPart arguments c = true) :
    l.consider g arguments c =
      let total := g.callScore c.parameters arguments
      if total < l.score then ⟨total, [c]⟩
      else if total = l.score then ⟨total, l.candidates ++ [c]⟩
      else l := by
  simp only [TypeGraph.takesPart, Bool.and_eq_true, decide_eq_true_eq] at h
  simp [consider, h.1, h.2]

/-! ### What one candidate changes -/

/-- A candidate that does not take part changes nothing. -/
theorem Right.skip (h : l.Right g arguments done) (hp : g.takesPart arguments c = false) :
    l.Right g arguments (done ++ [c]) := by
  have heq : g.contenders arguments (done ++ [c]) = g.contenders arguments done :=
    TypeGraph.contenders_concat_of_not hp
  refine ⟨?_, ?_, ?_⟩
  · rw [h.leading, TypeGraph.contendersAt, TypeGraph.contendersAt, heq]
  · rw [heq]
    exact h.least
  · rw [heq]
    exact h.unled

/-- What is at most the lowest total and the total of `c` bounds all totals with that of `c`. -/
theorem Right.least_concat (h : l.Right g arguments done) (hp : g.takesPart arguments c = true)
    {total : Score} (hl : total ≤ l.score) (hc : total ≤ g.callScore c.parameters arguments) :
    ∀ d ∈ g.contenders arguments (done ++ [c]), total ≤ g.callScore d.parameters arguments := by
  intro d hd
  rw [TypeGraph.contenders_concat hp, List.mem_append, List.mem_singleton] at hd
  rcases hd with hd | rfl
  · have hle := h.least d hd
    rw [Score.le_iff] at hl hle ⊢
    omega
  · exact hc

/-- A candidate with a lower total takes the lead alone. -/
theorem Right.lead (h : l.Right g arguments done) (hp : g.takesPart arguments c = true)
    (hlt : g.callScore c.parameters arguments < l.score) :
    Right g arguments (done ++ [c]) ⟨g.callScore c.parameters arguments, [c]⟩ where
  leading := by
    rw [TypeGraph.contendersAt_concat hp, if_pos rfl, TypeGraph.contendersAt_eq_nil_of_lt,
      List.nil_append]
    intro d hd
    have hle := h.least d hd
    show g.callScore c.parameters arguments < g.callScore d.parameters arguments
    rw [Score.lt_iff] at hlt ⊢
    rw [Score.le_iff] at hle
    omega
  least := h.least_concat hp (Nat.le_of_lt hlt) (Nat.le_refl _)
  unled := nofun

/-- A candidate with the same total joins the leaders. -/
theorem Right.join (h : l.Right g arguments done) (hp : g.takesPart arguments c = true)
    (htie : g.callScore c.parameters arguments = l.score) :
    Right g arguments (done ++ [c])
      ⟨g.callScore c.parameters arguments, l.candidates ++ [c]⟩ where
  leading := by
    rw [TypeGraph.contendersAt_concat hp, if_pos rfl, htie, h.leading]
  least := h.least_concat hp (htie ▸ Nat.le_refl _) (Nat.le_refl _)
  unled hn := absurd hn (by simp)

/-- A candidate with a higher total is left out. There are leaders then: without them, the total of
the candidate would have been uncoercible. -/
theorem Right.stay (h : l.Right g arguments done) (hp : g.takesPart arguments c = true)
    (hgt : l.score < g.callScore c.parameters arguments) : l.Right g arguments (done ++ [c]) where
  leading := by
    rw [TypeGraph.contendersAt_concat hp, if_neg, List.append_nil, h.leading]
    intro heq
    rw [Score.lt_iff, heq] at hgt
    omega
  least := h.least_concat hp (Nat.le_refl _) (Nat.le_of_lt hgt)
  unled hn := by
    have hle := (g.callScore c.parameters arguments).cost_le
    rw [Score.lt_iff, (h.unled hn).1, Score.cost_uncoercible] at hgt
    omega

/-- **One candidate.** The leaders stay right when one more candidate competes. -/
theorem Right.consider (h : l.Right g arguments done) (c : Callable) :
    (l.consider g arguments c).Right g arguments (done ++ [c]) := by
  cases hp : g.takesPart arguments c with
  | false =>
    rw [consider_of_not hp]
    exact h.skip hp
  | true =>
    rw [consider_of_takesPart hp]
    dsimp only
    split
    · exact h.lead hp ‹_›
    · rename_i hnlt
      split
      · exact h.join hp ‹_›
      · rename_i hne
        refine h.stay hp ?_
        have hne : (g.callScore c.parameters arguments).cost ≠ l.score.cost :=
          fun heq => hne (Score.eq_of_cost heq)
        rw [Score.lt_iff] at hnlt ⊢
        omega

/-- **The pass.** After all candidates, the leaders are those with the lowest total. -/
theorem right_among (g : TypeGraph) (arguments : List ScriptValue) (candidates : List Callable) :
    (among g arguments candidates).Right g arguments candidates := by
  have pass : ∀ (rest done : List Callable) (l : Leaders), l.Right g arguments done →
      (rest.foldl (Leaders.consider g arguments) l).Right g arguments (done ++ rest) := by
    intro rest
    induction rest with
    | nil =>
      intro done l h
      rw [List.append_nil]
      exact h
    | cons c rest ih =>
      intro done l h
      rw [List.append_cons]
      exact ih _ _ (h.consider c)
  exact pass candidates [] .none right_none

theorem Right.isLowest (h : l.Right g arguments done) (hl : l.candidates ≠ []) :
    g.IsLowest arguments l.score done where
  attained := h.leading ▸ hl
  least := h.least

theorem Right.eq_of_isLowest {total : Score} (h : l.Right g arguments done)
    (hl : g.IsLowest arguments total done) :
    l = ⟨total, g.contendersAt arguments total done⟩ := by
  have hne : l.candidates ≠ [] := fun hn => hl.contenders_ne_nil (h.unled hn).2
  obtain rfl := (h.isLowest hne).unique hl
  rw [← h.leading]

end Leaders

/-! ## Outcomes -/

/-- The outcome that a choice by some rules should have.

A call with more arguments than the rules allow is turned down, whatever the candidates are. Else
the candidates that take part decide: if there is none, there is no match; if just one has the
lowest total, it is chosen; if several have it, the rules say whether the call is ambiguous between
all of them or the first one is chosen. -/
inductive Choice (g : TypeGraph) (rules : CallRules) (overloads : OverloadSet)
    (arguments : List ScriptValue) : Except SelectionError Selected → Prop
  | arityTooLarge (ha : rules.maxArity < arguments.length) :
      Choice g rules overloads arguments
        (.error (.arityTooLarge arguments.length rules.maxArity))
  | noMatch (ha : arguments.length ≤ rules.maxArity)
      (hn : g.contenders arguments overloads.candidates = []) :
      Choice g rules overloads arguments (.error (.noMatch overloads.name arguments.length))
  | unique {total : Score} {c : Callable} (ha : arguments.length ≤ rules.maxArity)
      (hl : g.IsLowest arguments total overloads.candidates)
      (hc : g.contendersAt arguments total overloads.candidates = [c]) :
      Choice g rules overloads arguments (.ok ⟨c, total⟩)
  | ambiguous {total : Score} {tied : List Callable} (ha : arguments.length ≤ rules.maxArity)
      (hl : g.IsLowest arguments total overloads.candidates)
      (hc : g.contendersAt arguments total overloads.candidates = tied) (many : 2 ≤ tied.length)
      (hr : rules.tieBreak = .reject) :
      Choice g rules overloads arguments (.error (.ambiguous overloads.name total tied))
  | first {total : Score} {c : Callable} {others : List Callable}
      (ha : arguments.length ≤ rules.maxArity)
      (hl : g.IsLowest arguments total overloads.candidates)
      (hc : g.contendersAt arguments total overloads.candidates = c :: others)
      (many : others ≠ []) (hr : rules.tieBreak = .declarationOrder) :
      Choice g rules overloads arguments (.ok ⟨c, total⟩)

variable {g : TypeGraph} {rules : CallRules} {overloads : OverloadSet}
  {arguments : List ScriptValue} {outcome : Except SelectionError Selected}

/-- A choice has the outcome that it should have. -/
theorem CallRules.choice_select (rules : CallRules) (g : TypeGraph) (overloads : OverloadSet)
    (arguments : List ScriptValue) :
    Choice g rules overloads arguments (rules.select g overloads arguments) := by
  have hright := Leaders.right_among g arguments overloads.candidates
  have hlead := hright.leading
  unfold select
  split
  · exact .arityTooLarge ‹_›
  · rename_i ha
    have ha := Nat.not_lt.mp ha
    dsimp only
    generalize Leaders.among g arguments overloads.candidates = l at hright hlead
    cases hc : l.candidates with
    | nil => exact .noMatch ha (hright.unled hc).2
    | cons c others =>
      have hl := hright.isLowest (hc ▸ List.cons_ne_nil c others)
      rw [hc] at hlead
      cases others with
      | nil => exact .unique ha hl hlead.symm
      | cons d others =>
        cases hr : rules.tieBreak with
        | reject => exact .ambiguous ha hl hlead.symm (by simp) hr
        | declarationOrder => exact .first ha hl hlead.symm (List.cons_ne_nil d others) hr

/-- The lowest total and the candidates that have it leave no freedom. -/
theorem Choice.select_eq (h : Choice g rules overloads arguments outcome) :
    rules.select g overloads arguments = outcome := by
  have hright := Leaders.right_among g arguments overloads.candidates
  unfold CallRules.select
  cases h with
  | arityTooLarge ha => rw [if_pos ha]
  | noMatch ha hn =>
    have hlead := hright.leading
    rw [TypeGraph.contendersAt_eq_nil hn] at hlead
    rw [if_neg (Nat.not_lt.mpr ha)]
    simp only [hlead]
  | unique ha hl hc =>
    rw [if_neg (Nat.not_lt.mpr ha), hright.eq_of_isLowest hl, hc]
  | @ambiguous total tied ha hl hc many hr =>
    rw [if_neg (Nat.not_lt.mpr ha), hright.eq_of_isLowest hl, hc]
    obtain ⟨c, d, others, rfl⟩ : ∃ c d others, tied = c :: d :: others := by
      match tied, many with
      | c :: d :: others, _ => exact ⟨c, d, others, rfl⟩
    simp only [hr]
  | first ha hl hc many hr =>
    rw [if_neg (Nat.not_lt.mpr ha), hright.eq_of_isLowest hl, hc]
    obtain ⟨d, others, rfl⟩ := List.exists_cons_of_ne_nil many
    simp only [hr]

/-- **The choice.** The outcome of a choice is the one that it should have, and no other. -/
theorem CallRules.select_iff_choice :
    rules.select g overloads arguments = outcome ↔ Choice g rules overloads arguments outcome :=
  ⟨fun h => h ▸ rules.choice_select g overloads arguments, Choice.select_eq⟩

/-- A chosen candidate is reported with its own total. -/
theorem Choice.score_eq {selected : Selected}
    (h : Choice g rules overloads arguments (.ok selected)) :
    selected.member ∈ overloads.candidates ∧
      selected.score = g.callScore selected.member.parameters arguments := by
  have own : ∀ {c total}, c ∈ g.contendersAt arguments total overloads.candidates →
      c ∈ overloads.candidates ∧ total = g.callScore c.parameters arguments := by
    intro c total hc
    obtain ⟨hmem, heq⟩ := TypeGraph.mem_contendersAt_iff.mp hc
    exact ⟨(TypeGraph.mem_contenders_iff.mp hmem).1, heq.symm⟩
  cases h with
  | unique _ _ hc | first _ _ hc => exact own (hc ▸ List.mem_cons_self)

/-- No candidate that takes part has a lower total than the chosen one. -/
theorem Choice.score_le {selected : Selected} (h : Choice g rules overloads arguments (.ok selected))
    {c : Callable} (hc : c ∈ g.contenders arguments overloads.candidates) :
    selected.score ≤ g.callScore c.parameters arguments := by
  cases h with
  | unique _ hl _ | first _ hl _ => exact hl.least c hc

/-! ## Hosts -/

theorem Host.select_adopt (h : Host) (rules : CallRules) (overloads : OverloadSet)
    (arguments : List ScriptValue) :
    ((h.adopt rules).2.select (h.adopt rules).1 overloads arguments).1 =
      rules.clamped.select h.types overloads arguments := by
  unfold adopt
  dsimp only
  split <;> rfl

/-- **Resolution.** A host that has adopted some rules chooses as the rules within bounds say, and
reports the total of the candidate that it has chosen. -/
theorem Host.resolve_iff_choice (h : Host) (rules : CallRules) (overloads : OverloadSet)
    (arguments : List ScriptValue) :
    (∀ outcome, ((h.adopt rules).2.select (h.adopt rules).1 overloads arguments).1 = outcome ↔
        Choice h.types rules.clamped overloads arguments outcome) ∧
      ∀ selected, ((h.adopt rules).2.select (h.adopt rules).1 overloads arguments).1 =
          .ok selected →
        selected.member ∈ overloads.candidates ∧
          selected.score = h.types.callScore selected.member.parameters arguments := by
  rw [h.select_adopt]
  exact ⟨fun _ => CallRules.select_iff_choice,
    fun _ ok => (CallRules.select_iff_choice.mp ok).score_eq⟩

/-- A public constructor of the root class, with one parameter. -/
def unaryConstructor (p : Primitive) : Callable :=
  .constructor ⟨[Builtin.primitive p], ⟨true, false, false, false, false⟩, Builtin.object⟩

/-- A number that fits an `int` as well as it fits a `long` leaves a tie. -/
theorem Host.resolve_iff_choice_tie :
    Choice TypeGraph.initial ⟨.reject, 252⟩
      ⟨nameOfConstructors, unaryConstructor .int, [unaryConstructor .long]⟩
      [(Value.integer 5).script .initial 1]
      (.error (.ambiguous nameOfConstructors (.ofCost 1)
        [unaryConstructor .int, unaryConstructor .long])) := by
  have hscore : ∀ p ∈ [Primitive.int, .long], TypeGraph.initial.callScore [Builtin.primitive p]
      [(Value.integer 5).script .initial 1] = .ofCost 1 := by
    decide +kernel
  have hint := hscore .int (by decide)
  have hlong := hscore .long (by decide)
  refine ((Host.initial.resolve_iff_choice ⟨.reject, 300⟩ _ _).1 _).mp ?_
  rw [select_adopt]
  simp only [CallRules.select, Leaders.among, OverloadSet.candidates, List.foldl, Leaders.consider,
    unaryConstructor, Callable.parameters]
  simp only [Host.initial, Host.types, Catalog.initial, hint, hlong]
  rfl

end Interop
