import Interop.Proofs.Call.Totals
import Interop.Proofs.Delivery.Deliverable
import Interop.Proofs.Delivery.Soundness

/-!
# Binding a chosen member

A member that has been chosen for a call can be called: it has as many parameters as there are
arguments, and none of the arguments is refused as a whole. What can still fail is an element of a
table, since the choice has only looked at the first one, and a table can be too long for an array.

* `TypeGraph.isCoercible_of_callScore`: a coercible total has coercible arguments only.
* `TypeGraph.convert_of_isCoercible`: how the conversion of a coercible argument can end.
* `Binding`: how the conversion of all arguments can end after a choice.
* `Host.Reachable.bind_selected`: it does end so, after any run.
* `Host.bind_disagrees`: choices for a value that is nil by its kind alone and for a table without
  end.
-/

namespace Interop

/-! ## Single arguments -/

namespace TypeGraph

variable {g : TypeGraph} {t e : TypeId} {s : Strategy} {v : ScriptValue}
  {parameters : List TypeId} {arguments : List ScriptValue}

/-- An uncoercible argument would have made the total uncoercible. -/
theorem isCoercible_of_callScore (hl : parameters.length = arguments.length)
    (hc : (g.callScore parameters arguments).isCoercible = true) {x : TypeId × ScriptValue}
    (hx : x ∈ parameters.zip arguments) : (g.score x.1 x.2).isCoercible = true := by
  have hsum : (g.costs parameters arguments).sum < unreachable :=
    (callScore_isCoercible_iff hl).mp hc
  have hmem : (g.score x.1 x.2).cost ∈ g.costs parameters arguments :=
    List.mem_map.mpr ⟨x, hx, rfl⟩
  have hle := List.single_le_sum (fun _ _ => Nat.zero_le _) _ hmem
  exact Score.isCoercible_iff.mpr (Nat.lt_of_le_of_lt hle hsum)

/-- A coercible value is converted, or it is a table for an array and stops for lack of room or has
an element that is refused. -/
theorem convert_of_isCoercible (hb : v.CarriesBytes) (hn : v.KnowsNil)
    (hc : (g.score t v).isCoercible = true) :
    (∃ n, g.convert t v = .ok n) ∨
      (g.convert t v = .error .overflow ∧ g.Overflows t v) ∨
      ∃ e s i, g.strategy t = .array e s ∧ v.kind = .table ∧
        g.convert t v = .error (.elementRefused i (g.name e)) := by
  by_cases ho : g.Overflows t v
  · exact .inr (.inl ⟨(convert_overflow_iff hb hn).mpr ho, ho⟩)
  by_cases hd : g.Deliverable t v
  · exact .inl ((convert_isOk_iff hb hn).mpr ⟨hd, ho⟩)
  · have hne : g.score t v ≠ .uncoercible := by
      rw [Ne, Score.eq_uncoercible_iff, hc]
      decide
    obtain ⟨e, s, i, hs, hk, -, -, herr, -⟩ := convert_elementRefused hb hn hne hd ho
    exact .inr (.inr ⟨e, s, i, hs, hk, herr⟩)

/-- Only array types have array strategies. -/
theorem isArray_of_strategy (hs : g.strategy t = .array e s) : g.isArray t = true := by
  rw [strategy] at hs
  split at hs
  · rename_i s' hk
    subst hs
    rcases Strategy.known?_cases hk with ⟨-, h⟩ | ⟨_, _, -, -, h⟩ | ⟨-, h⟩ | ⟨-, h⟩ <;> cases h
  · split at hs
    · rename_i he
      rw [isArray, he]
      rfl
    · cases hs

end TypeGraph

/-! ## All arguments -/

/-- How the conversion of the arguments of a chosen member can end, with `convert` for each of them:
with one value for each argument, the conversion of that argument to its parameter type; or with
the first argument that is not converted, which refuses a table element or comes to a table that no
array has room for. -/
inductive Binding (g : TypeGraph)
    (convert : TypeId → ScriptValue → Except DeliveryError NativeValue)
    (parameters : List TypeId) (arguments : List ScriptValue) :
    Except DeliveryError (List NativeValue) → Prop
  | values {values : List NativeValue} (count : values.length = arguments.length)
      (each : ∀ (k : Nat) p a, parameters[k]? = some p → arguments[k]? = some a →
        ∃ n, values[k]? = some n ∧ convert p a = .ok n) :
      Binding g convert parameters arguments (.ok values)
  | element {k i : Nat} {p : TypeId} {a : ScriptValue} {target : String}
      (hp : parameters[k]? = some p) (ha : arguments[k]? = some a)
      (before : ∀ j < k, ∀ q b, parameters[j]? = some q → arguments[j]? = some b →
        ∃ n, convert q b = .ok n)
      (refused : convert p a = .error (.elementRefused i target)) :
      Binding g convert parameters arguments (.error (.elementRefused i target))
  | overflow {k : Nat} {p : TypeId} {a : ScriptValue}
      (hp : parameters[k]? = some p) (ha : arguments[k]? = some a)
      (before : ∀ j < k, ∀ q b, parameters[j]? = some q → arguments[j]? = some b →
        ∃ n, convert q b = .ok n)
      (stop : g.Overflows p a) : Binding g convert parameters arguments (.error .overflow)

namespace TypeGraph

variable {g : TypeGraph} {member : Callable} {arguments : List ScriptValue}

theorem convertArguments_eq (hl : member.parameters.length = arguments.length) :
    g.convertArguments member arguments =
      (member.parameters.zip arguments).mapM fun x => g.convert x.1 x.2 := by
  rw [convertArguments, if_pos hl]

/-- If every argument is converted, so is the call. -/
theorem convertArguments_isOk (hl : member.parameters.length = arguments.length)
    (hok : ∀ x ∈ member.parameters.zip arguments, ∃ n, g.convert x.1 x.2 = .ok n) :
    ∃ values, g.convertArguments member arguments = .ok values := by
  rw [convertArguments_eq hl]
  cases hm : (member.parameters.zip arguments).mapM fun x => g.convert x.1 x.2 with
  | ok values => exact ⟨values, rfl⟩
  | error d =>
    obtain ⟨k, x, hk, herr, -⟩ := mapM_eq_error_iff.mp hm
    obtain ⟨n, ok⟩ := hok x (List.mem_of_getElem? hk)
    rw [ok] at herr
    cases herr

/-- **Binding.** If the total of a member is coercible, its arguments are converted as `Binding`
says. -/
theorem binding_convertArguments (hl : member.parameters.length = arguments.length)
    (hb : ∀ a ∈ arguments, a.CarriesBytes) (hn : ∀ a ∈ arguments, a.KnowsNil)
    (hc : (g.callScore member.parameters arguments).isCoercible = true) :
    Binding g g.convert member.parameters arguments (g.convertArguments member arguments) := by
  rw [convertArguments_eq hl]
  cases hm : (member.parameters.zip arguments).mapM fun x => g.convert x.1 x.2 with
  | ok values =>
    obtain ⟨hlen, hall⟩ := List.forall₂_iff_get.mp (mapM_eq_ok_iff.mp hm)
    rw [List.length_zip, hl, Nat.min_self] at hlen
    refine .values hlen.symm fun k p a hp ha => ?_
    have hx : (member.parameters.zip arguments)[k]? = some (p, a) :=
      List.getElem?_zip_eq_some.mpr ⟨hp, ha⟩
    obtain ⟨hk, hget⟩ := List.getElem?_eq_some_iff.mp hx
    obtain ⟨ha, -⟩ := List.getElem?_eq_some_iff.mp ha
    have hval := hall k hk (hlen ▸ ha)
    rw [List.get_eq_getElem, hget] at hval
    exact ⟨_, List.getElem?_eq_getElem (hlen ▸ ha), hval⟩
  | error d =>
    obtain ⟨k, ⟨p, a⟩, hk, herr, hall⟩ := mapM_eq_error_iff.mp hm
    obtain ⟨hp, ha⟩ := List.getElem?_zip_eq_some.mp hk
    have hmem := List.mem_of_getElem? ha
    have hcoercible := isCoercible_of_callScore hl hc (List.mem_of_getElem? hk)
    have before : ∀ j < k, ∀ q b, member.parameters[j]? = some q → arguments[j]? = some b →
        ∃ n, g.convert q b = .ok n :=
      fun j hj q b hq hb => hall j hj (q, b) (List.getElem?_zip_eq_some.mpr ⟨hq, hb⟩)
    -- the argument that fails is coercible, so it can only fail by an element or for lack of room
    rcases convert_of_isCoercible (hb a hmem) (hn a hmem) hcoercible with
      ⟨n, ok⟩ | ⟨hstop, ho⟩ | ⟨e, s, i, -, -, hi⟩
    · rw [ok] at herr
      cases herr
    · rw [hstop] at herr
      cases herr
      exact .overflow hp ha before ho
    · rw [hi] at herr
      cases herr
      exact .element hp ha before hi

end TypeGraph

/-! ## Hosts -/

/-- What a choice picks is one of the candidates that take part in it. -/
theorem Choice.mem_contenders {g : TypeGraph} {rules : CallRules} {overloads : OverloadSet}
    {arguments : List ScriptValue} {selected : Selected}
    (h : Choice g rules overloads arguments (.ok selected)) :
    selected.member ∈ g.contenders arguments overloads.candidates := by
  cases h with
  | unique _ _ hc | first _ _ hc =>
    exact (TypeGraph.mem_contendersAt_iff.mp (hc ▸ List.mem_cons_self)).1

/-- **Calls that have been chosen.** After any run, let a choice pick a member for arguments whose
texts carry bytes and whose nils know that they are. Then the member has as many parameters as there
are arguments, and converting them gives one value for each, or fails with the first argument that
fails at all: because of an element of a table, or because a table is too long for an array. It
gives the values for sure if no table goes to an array type. -/
theorem Host.Reachable.bind_selected {h : Host} (hr : h.Reachable) {rules : CallRules}
    {overloads : OverloadSet} {arguments : List ScriptValue} {selected : Selected}
    (hb : ∀ a ∈ arguments, a.CarriesBytes) (hn : ∀ a ∈ arguments, a.KnowsNil)
    (ok : ((h.adopt rules).2.select (h.adopt rules).1 overloads arguments).1 = .ok selected) :
    selected.member.parameters.length = arguments.length ∧
      Binding h.types (fun t v => (h.convert t v).1) selected.member.parameters arguments
        (h.types.convertArguments selected.member arguments) ∧
      ((∀ x ∈ selected.member.parameters.zip arguments,
          h.types.isArray x.1 = true → x.2.kind ≠ .table) →
        ∃ values, h.types.convertArguments selected.member arguments = .ok values) := by
  have hchoice : Choice h.types rules.clamped overloads arguments (.ok selected) :=
    ((h.resolve_iff_choice rules overloads arguments).1 _).mp ok
  obtain ⟨-, hl, hc⟩ := TypeGraph.mem_contenders_iff.mp hchoice.mem_contenders
  have hconvert : (fun t v => (h.convert t v).1) = h.types.convert := by
    funext t v
    exact hr.convert_fst t v
  rw [hconvert]
  refine ⟨hl, TypeGraph.binding_convertArguments hl hb hn hc, fun hno => ?_⟩
  refine TypeGraph.convertArguments_isOk hl fun x hx => ?_
  have hmem := (List.of_mem_zip hx).2
  have hcoercible := TypeGraph.isCoercible_of_callScore hl hc hx
  have noTable : ∀ {e s}, h.types.strategy x.1 = .array e s → x.2.kind ≠ .table :=
    fun hs => hno x hx (TypeGraph.isArray_of_strategy hs)
  rcases TypeGraph.convert_of_isCoercible (hb _ hmem) (hn _ hmem) hcoercible with
    hok | ⟨-, ho⟩ | ⟨e, s, i, hs, hk, -⟩
  · exact hok
  · obtain ⟨e, s, hs, hk⟩ := ho.table_of_array
    exact absurd hk (noTable hs)
  · exact absurd hk (noTable hs)

/-- A public constructor of the root class, with an array of integers and an integer. -/
def arrayConstructor : Callable :=
  .constructor ⟨[⟨25⟩, Builtin.primitive .int], ⟨true, false, false, false, false⟩, Builtin.object⟩

/-- A table with a gap for the array, and a number. -/
def gappedArguments : List ScriptValue := [gappedTable, (Value.integer 7).script .initial 4]

theorem callScore_gapped :
    (Host.ofArray (Builtin.primitive .int)).types.callScore arrayConstructor.parameters
      gappedArguments = .ofCost 2 := by
  have htable : (Host.ofArray (Builtin.primitive .int)).types.score ⟨25⟩ gappedTable =
      .ofCost 1 := by
    rw [TypeGraph.score, strategy_integers]
    decide
  have hnumber : (Host.ofArray (Builtin.primitive .int)).types.score (Builtin.primitive .int)
      ((Value.integer 7).script .initial 4) = .ofCost 1 := by
    rw [TypeGraph.score, TypeGraph.strategy_of_known (s := .numeric .int) (by decide)]
    decide
  rw [TypeGraph.callScore, if_pos (by decide)]
  simp only [arrayConstructor, Callable.parameters, gappedArguments, List.zip_cons_cons,
    List.zip_nil_left, TypeGraph.addScores, htable, hnumber]
  rfl

/-- The constructor is chosen although the second element of the table is no integer, and binding
it names that element. -/
theorem Host.bind_selected_gapped :
    (ofArray (Builtin.primitive .int)).Reachable ∧ (∀ a ∈ gappedArguments, a.CarriesBytes) ∧
      (∀ a ∈ gappedArguments, a.KnowsNil) ∧
      (((ofArray (Builtin.primitive .int)).adopt .default).2.select
          ((ofArray (Builtin.primitive .int)).adopt .default).1
          ⟨nameOfConstructors, arrayConstructor, []⟩ gappedArguments).1 =
        .ok ⟨arrayConstructor, .ofCost 2⟩ ∧
      (ofArray (Builtin.primitive .int)).types.convertArguments arrayConstructor gappedArguments =
        .error (.elementRefused 2 "int") ∧
      Binding (ofArray (Builtin.primitive .int)).types
        (fun t v => ((ofArray (Builtin.primitive .int)).convert t v).1)
        arrayConstructor.parameters gappedArguments (.error (.elementRefused 2 "int")) := by
  have hr : (ofArray (Builtin.primitive .int)).Reachable := reachable_ofArray (by decide)
  have hplain : ∀ a ∈ gappedArguments, a.Plain := by
    have hnumber : ((Value.integer 7).script .initial 4).Plain := .script _ _ _ nofun
    simpa [gappedArguments] using ⟨plain_gappedTable, hnumber⟩
  have hb : ∀ a ∈ gappedArguments, a.CarriesBytes := fun a ha => (hplain a ha).carriesBytes
  have hn : ∀ a ∈ gappedArguments, a.KnowsNil := fun a ha => (hplain a ha).knowsNil
  have ok : (((ofArray (Builtin.primitive .int)).adopt .default).2.select
      ((ofArray (Builtin.primitive .int)).adopt .default).1
      ⟨nameOfConstructors, arrayConstructor, []⟩ gappedArguments).1 =
      .ok ⟨arrayConstructor, .ofCost 2⟩ := by
    rw [select_adopt]
    simp only [CallRules.select, Leaders.among, OverloadSet.candidates, List.foldl,
      Leaders.consider, callScore_gapped]
    rfl
  have herr : (ofArray (Builtin.primitive .int)).types.convertArguments arrayConstructor
      gappedArguments = .error (.elementRefused 2 "int") := by
    have htable : (ofArray (Builtin.primitive .int)).types.convert ⟨25⟩ gappedTable =
        .error (.elementRefused 2 "int") := by
      rw [TypeGraph.convert, strategy_integers]
      rfl
    rw [TypeGraph.convertArguments_eq (by decide)]
    simp only [arrayConstructor, Callable.parameters, gappedArguments, List.zip_cons_cons,
      List.mapM_cons, htable]
    rfl
  exact ⟨hr, hb, hn, ok, herr, herr ▸ (hr.bind_selected hb hn ok).2.1⟩

/-- A public constructor of the root class with one parameter of the type `t`. -/
def soleConstructor (t : TypeId) : Callable :=
  .constructor ⟨[t], ⟨true, false, false, false, false⟩, Builtin.object⟩

theorem TypeGraph.callScore_single (g : TypeGraph) (t : TypeId) (v : ScriptValue) :
    g.callScore [t] [v] = g.score t v := by
  refine Score.eq_of_cost ?_
  rw [cost_callScore rfl]
  simp [costs, (g.score t v).cost_le]

/-- The only candidate is chosen if its argument has a coercible score. -/
theorem Host.select_sole (h : Host) {t : TypeId} {v : ScriptValue}
    (hc : (h.types.score t v).isCoercible = true) :
    ((h.adopt .default).2.select (h.adopt .default).1
      ⟨nameOfConstructors, soleConstructor t, []⟩ [v]).1 =
      .ok ⟨soleConstructor t, h.types.score t v⟩ := by
  have htotal : h.types.callScore (soleConstructor t).parameters [v] = h.types.score t v :=
    h.types.callScore_single t v
  have hcontenders : h.types.contenders [v] [soleConstructor t] = [soleConstructor t] := by
    refine List.filter_cons_of_pos ?_
    rw [TypeGraph.takesPart, htotal, hc]
    rfl
  have hleading : h.types.contendersAt [v] (h.types.score t v) [soleConstructor t] =
      [soleConstructor t] := by
    rw [TypeGraph.contendersAt, hcontenders]
    exact List.filter_cons_of_pos (decide_eq_true htotal)
  refine ((h.resolve_iff_choice .default _ _).1 _).mpr (.unique ?_ ⟨?_, ?_⟩ hleading)
  · show 1 ≤ CallRules.default.clamped.maxArity
    decide
  · exact hleading ▸ List.cons_ne_nil _ _
  · intro c hmem
    rw [OverloadSet.candidates, hcontenders, List.mem_singleton] at hmem
    rw [hmem, htotal]
    exact Nat.le_refl _

/-- A nil that is denied to be nil is chosen as bytes, and binding it refuses it as a whole. An
endless table is chosen for an array, and binding it comes to no element. -/
theorem Host.bind_disagrees :
    (deniedNil.CarriesBytes ∧
      ((initial.adopt .default).2.select (initial.adopt .default).1
        ⟨nameOfConstructors, soleConstructor Builtin.bytes, []⟩ [deniedNil]).1 =
        .ok ⟨soleConstructor Builtin.bytes, .nilAsNull⟩ ∧
      initial.types.convertArguments (soleConstructor Builtin.bytes) [deniedNil] =
        .error (.refused .nil "byte[]")) ∧
    endlessTable.CarriesBytes ∧
      (((ofArray (Builtin.primitive .int)).adopt .default).2.select
        ((ofArray (Builtin.primitive .int)).adopt .default).1
        ⟨nameOfConstructors, soleConstructor ⟨25⟩, []⟩ [endlessTable]).1 =
        .ok ⟨soleConstructor ⟨25⟩, .ofCost 1⟩ ∧
      (ofArray (Builtin.primitive .int)).types.convertArguments (soleConstructor ⟨25⟩)
        [endlessTable] = .error .overflow := by
  refine ⟨⟨carriesBytes_deniedNil, ?_, ?_⟩, carriesBytes_endlessTable, ?_, ?_⟩
  · rw [← score_deniedNil]
    exact initial.select_sole (by rw [score_deniedNil]; rfl)
  · rw [TypeGraph.convertArguments_eq rfl]
    simp only [soleConstructor, Callable.parameters, List.zip_cons_cons, List.mapM_cons,
      convert_deniedNil]
    rfl
  · rw [← score_endlessTable]
    exact (ofArray (Builtin.primitive .int)).select_sole (by rw [score_endlessTable]; rfl)
  · rw [TypeGraph.convertArguments_eq rfl]
    simp only [soleConstructor, Callable.parameters, List.zip_cons_cons, List.mapM_cons,
      convert_endlessTable]
    rfl

end Interop
