import Interop.Proofs.Host.Effect
import Interop.Proofs.Types.Creation
import Interop.Proofs.Types.Recursion

/-!
# How types come into being

In every run, a type comes into being after all that it rests on, so the types of a host have no
cycles and every recursion over them ends. There is one array type over each type, from the time on
when it is first asked for, and it is none of the classes and interfaces: as long as there is a
number for every type.

* `Host.Step.creates`: a step makes one type at most.
* `Host.Founded`: the order of types and of their creation.
* `Host.RecursionsEnd`: distances, lineages and strategies are found by recursion too.
* `Host.ArraysInterned`: array types and their elements, in all later hosts.
* `Host.ToldApart`: which types have different numbers.
* `Host.Reachable.types_founded`: all of these hold of every reachable host.
* `Host.exists_reused_number`: a class that has the number of an array type.
-/

namespace Interop

namespace Host

variable {h h' h₀ h₁ : Host} {t u c : TypeId}

/-! ## Steps that make types -/

/-- `c` is a class or an interface that is declared, and `h'` the host that has it. -/
inductive DeclaresType (h : Host) : TypeId → Host → Prop
  | classType (name : String) (superclass : Option TypeId) (interfaces : List TypeId)
      (hs : ∀ u ∈ superclass, h.types.Has u) (hi : ∀ u ∈ interfaces, h.types.Has u) :
      DeclaresType h (h.declareClass name superclass interfaces).1
        (h.declareClass name superclass interfaces).2
  | interfaceType (name : String) (extended : List TypeId) (he : ∀ u ∈ extended, h.types.Has u) :
      DeclaresType h (h.declareInterface name extended).1 (h.declareInterface name extended).2

theorem DeclaresType.step (hd : h.DeclaresType c h') : Step h h' := by
  cases hd with
  | classType name superclass interfaces hs hi =>
    exact .declareClass name superclass interfaces hs hi
  | interfaceType name extended he => exact .declareInterface name extended he

theorem DeclaresType.creates (hd : h.DeclaresType c h') : h.types.Creates c h'.types := by
  cases hd with
  | classType name superclass interfaces hs hi => exact .declared _ nofun
  | interfaceType name extended he => exact .declared _ nofun

/-- Neither a class nor an interface has elements. -/
theorem DeclaresType.element? (hd : h.DeclaresType c h') : h'.types.element? c = none := by
  cases hd with
  | classType name superclass interfaces hs hi => exact TypeGraph.element?_add_self nofun
  | interfaceType name extended he => exact TypeGraph.element?_add_self nofun

/-- **Steps.** A step leaves the types as they are or makes a single one. -/
theorem Step.creates (st : Step h h') :
    h'.types = h.types ∨ ∃ t, h.types.Creates t h'.types := by
  cases st with
  | declareClass name superclass interfaces hs hi =>
    exact .inr ⟨_, (DeclaresType.classType name superclass interfaces hs hi).creates⟩
  | declareInterface name extended he =>
    exact .inr ⟨_, (DeclaresType.interfaceType name extended he).creates⟩
  | arrayType element he =>
    cases hget : h.types.arrayType? element with
    | some a => exact .inl (congrArg Prod.snd (TypeGraph.arrayType_of_found hget))
    | none => exact .inr ⟨_, .array element hget⟩
  | attach t m ht hf hm ok => exact .inl (attach_ok ok).types
  | define t ds ht hd ok => exact .inl (define_ok ok).types
  | relax f hf ok => exact .inl (relax_ok ok).types
  | sharedSurface t ht => exact .inl (h.sharedSurface_keeps t).types
  | fields s => exact .inl (h.fields_keeps s).types
  | methods s => exact .inl (h.methods_keeps s).types
  | constructors s => exact .inl (h.constructors_keeps s).types
  | nested s => exact .inl (h.nested_keeps s).types
  | adopt rules => exact .inl (h.adopt_keeps rules).types
  | _ => exact .inl rfl

/-! ## The order of creation -/

/-- In a run that comes to `h`, the step from `h₀` to `h₁` makes the type `t`. -/
structure Made (h : Host) (t : TypeId) (h₀ h₁ : Host) : Prop where
  reachable : h₀.Reachable
  step : Step h₀ h₁
  leadsTo : h₁.LeadsTo h
  absent : ¬ h₀.types.Has t
  present : h₁.types.Has t

theorem Made.later (hm : h.Made t h₀ h₁) (st : Step h h') : h'.Made t h₀ h₁ :=
  { hm with leadsTo := hm.leadsTo.tail st }

/-- A type is known from the start, or some step made it. -/
theorem Reachable.exists_made (hr : h.Reachable) (ht : h.types.Has t) :
    TypeGraph.initial.Has t ∨ ∃ h₀ h₁, h.Made t h₀ h₁ := by
  induction hr with
  | initial => exact .inl ht
  | @step h h' hr st ih =>
    by_cases hold : h.types.Has t
    · rcases ih hold with hknown | ⟨h₀, h₁, hm⟩
      · exact .inl hknown
      · exact .inr ⟨h₀, h₁, hm.later st⟩
    · exact .inr ⟨h, h', hr, st, .refl, hold, ht⟩

/-- **Creation.** When a type is made, all that it rests on is there. -/
theorem Made.has_of_restsOn (hm : h.Made t h₀ h₁) (hu : h.types.RestsOn t u) :
    h₀.types.Has u := by
  have hwf := (Reachable.step hm.reachable hm.step).sound.types
  have hrests := (hm.leadsTo.extends.types.restsOn hm.present).mp hu
  have older := hwf.index_lt_of_restsOn hrests
  rcases hm.step.creates with heq | ⟨made, hc⟩
  · exact absurd (heq ▸ hm.present) hm.absent
  · -- the new type is the last one
    obtain rfl := (hc.has_iff.mp hm.present).resolve_left hm.absent
    rwa [hc.index_eq] at older

/-- Building gives a type its members and makes none. -/
theorem types_build (h : Host) (d : Draft) : (h.build d).2.types = h.types := by
  unfold build Catalog.build Catalog.attach
  split
  · rename_i ok
    split at ok
    · cases ok
    · split at ok <;> cases ok
      rfl
  · rfl

/-- What a type rests on is older: it comes before the type, and was there when a step made the
type. No type rests on itself at any depth. A class or an interface counts among the types as soon
as its declaration is started, and its members do not change the types when they are built. -/
structure Founded (h : Host) : Prop where
  older : ∀ t u, h.types.RestsOn t u → u.index < t.index
  made : ∀ t, h.types.Has t → TypeGraph.initial.Has t ∨ ∃ h₀ h₁, h.Made t h₀ h₁
  before : ∀ t u h₀ h₁, h.Made t h₀ h₁ → h.types.RestsOn t u → h₀.types.Has u
  acyclic : ∀ t, ¬ Relation.TransGen h.types.RestsOn t t
  started : ∀ c h₁, h.DeclaresType c h₁ → h₁.Reachable ∧ h₁.types.Has c
  built : ∀ d : Draft, (h.build d).2.types = h.types

theorem Reachable.founded (hr : h.Reachable) : h.Founded where
  older _ _ hu := hr.sound.types.index_lt_of_restsOn hu
  made _ ht := hr.exists_made ht
  before _ _ _ _ hm hu := hm.has_of_restsOn hu
  acyclic := hr.sound.types.acyclic
  started _ _ hd := ⟨hr.step hd.step, hd.creates.has_iff.mpr (.inr rfl)⟩
  built := h.types_build

/-! ## Recursions -/

/-- The recursions over the types end for every type, at a depth that its place bounds, and find
what the host finds. -/
structure RecursionsEnd (h : Host) : Prop where
  distance : ∀ target t depth, t.index < depth → h.types.Measured target depth (some t)
  lineage : ∀ t depth, h.types.Has t → t.index < depth →
    h.types.collect depth [] t = some (h.types.lineage t)
  strategy : ∀ t depth, t.index < depth →
    StrategyStore.lookupWithin h.types depth h.strategies t =
      some (h.strategies.lookup h.types t)

theorem Reachable.recursionsEnd (hr : h.Reachable) : h.RecursionsEnd where
  distance target _ _ hd := hr.sound.types.measure_eq target hd
  lineage _ _ ht hd := hr.sound.types.collect_eq ht hd
  strategy _ _ hd := StrategyStore.lookupWithin_eq hr.sound.types _ hd

/-! ## Array types -/

theorem Reachable.interned (hr : h.Reachable) : h.types.Interned := by
  induction hr with
  | initial => exact TypeGraph.interned_initial
  | @step h h' _ st ih =>
    rcases st.creates with heq | ⟨t, hc⟩
    · exact heq ▸ ih
    · exact hc.interned ih

/-- The array type over a type has elements of that type, then and in all later hosts. -/
theorem Reachable.element?_arrayType (hr : h.Reachable) (hl : (h.arrayType t).2.LeadsTo h') :
    ∃ u, h'.types.element? (h.arrayType t).1 = some u ∧ u.Same t := by
  have helement : ∃ u, (h.arrayType t).2.types.element? (h.arrayType t).1 = some u ∧ u.Same t :=
    hr.interned.element?_arrayType t
  obtain ⟨u, hu, hsame⟩ := helement
  rw [hl.extends.types.element? (TypeGraph.has_of_element? hu)]
  exact ⟨u, hu, hsame⟩

theorem Reachable.has_arrayType (hr : h.Reachable) (t : TypeId) :
    (h.arrayType t).2.types.Has (h.arrayType t).1 := by
  obtain ⟨u, hu, -⟩ := hr.element?_arrayType (t := t) .refl
  exact TypeGraph.has_of_element? hu

/-- The array type that is there is found, and the host stays as it is. -/
theorem Reachable.arrayType_eq (hr : h.Reachable) {a : TypeId} (ha : h.types.element? a = some u)
    (hs : u.Same t) : h.arrayType t = (a, h) := by
  have htypes : h.catalog.types.arrayType t = (a, h.catalog.types) :=
    hr.interned.arrayType_eq ha hs
  rw [arrayType, addType, htypes]

theorem growsTo_arrayType (h : Host) (t : TypeId) : h.types.GrowsTo (h.arrayType t).2.types :=
  TypeGraph.growsTo_arrayType h.types t

/-- A type without elements is not the array type over any type. -/
theorem Reachable.arrayType_ne (hr : h.Reachable) (hc : h.types.Has c)
    (he : h.types.element? c = none) (t : TypeId) : (h.arrayType t).1 ≠ c := by
  intro heq
  obtain ⟨u, hu, -⟩ := hr.element?_arrayType (t := t) .refl
  rw [heq, (h.growsTo_arrayType t).element? hc, he] at hu
  cases hu

/-- Where there is a number for every type, it does not have its number either. -/
theorem Reachable.arrayType_not_same (hr : h.Reachable) (hc : h.types.Has c)
    (he : h.types.element? c = none)
    (hn : (h.arrayType t).2.types.size ≤ TypeId.numbers) : ¬ (h.arrayType t).1.Same c :=
  fun hs => hr.arrayType_ne hc he t
    (TypeGraph.eq_of_same hn (hr.has_arrayType t) ((h.growsTo_arrayType t).has hc) hs)

/-- Once the array type over `s` has been asked for, its elements are of type `s`, and it is found
again for `s` and whatever has the number of `s`. Names do not matter for this. -/
structure ArraysInterned (h : Host) : Prop where
  element : ∀ s h', (h.arrayType s).2.LeadsTo h' →
    ∃ u, h'.types.element? (h.arrayType s).1 = some u ∧ u.Same s
  again : ∀ s t h', h.types.Has s → s.Same t → (h.arrayType s).2.LeadsTo h' →
    h'.arrayType t = ((h.arrayType s).1, h')

theorem Reachable.arraysInterned (hr : h.Reachable) : h.ArraysInterned where
  element _ _ hl := hr.element?_arrayType hl
  again s t h' hs hsame hl := by
    have hr' := (hr.step (.arrayType s hs)).leadsTo hl
    obtain ⟨u, hu, hus⟩ := hr.element?_arrayType hl
    exact hr'.arrayType_eq hu (hus.trans hsame)

/-- Numbers tell the types apart just as long as there is one for each of them. So long, array types
are the same just if their element types are, a class or an interface is none of the types that were
there before it, and no array type is one of those known types, classes and interfaces that have no
elements. -/
structure ToldApart (h : Host) : Prop where
  types : h.types.size ≤ TypeId.numbers ↔
    ∀ t u, h.types.Has t → h.types.Has u → t.Same u → t = u
  same_iff : ∀ s t h', h.types.Has s → (h.arrayType s).2.LeadsTo h' →
    (h'.arrayType t).2.types.size ≤ TypeId.numbers →
    ((h.arrayType s).1.Same (h'.arrayType t).1 ↔ s.Same t)
  declared : ∀ c h₁, h.DeclaresType c h₁ →
    (h₁.types.size ≤ TypeId.numbers → ∀ u, h.types.Has u → ¬ u.Same c) ∧
    ∀ t h', h₁.LeadsTo h' → (h'.arrayType t).2.types.size ≤ TypeId.numbers →
      ¬ (h'.arrayType t).1.Same c
  known : ∀ c t, TypeGraph.initial.Has c → TypeGraph.initial.element? c = none →
    (h.arrayType t).2.types.size ≤ TypeId.numbers → ¬ (h.arrayType t).1.Same c

theorem Reachable.toldApart (hr : h.Reachable) : h.ToldApart where
  types := TypeGraph.size_le_numbers_iff
  same_iff s t h' hs hl hn := by
    have hr' := (hr.step (.arrayType s hs)).leadsTo hl
    constructor
    · intro hsame
      have hgrows := h'.growsTo_arrayType t
      have hfirst := hl.extends.types.has (hr.has_arrayType s)
      have heq := TypeGraph.eq_of_same hn (hgrows.has hfirst) (hr'.has_arrayType t) hsame
      -- an array type has one element type
      obtain ⟨u, hu, hus⟩ := hr.element?_arrayType hl
      obtain ⟨w, hw, hwt⟩ := hr'.element?_arrayType (t := t) .refl
      rw [← heq, hgrows.element? hfirst, hu, Option.some.injEq] at hw
      exact hus.symm.trans (hw ▸ hwt)
    · intro hsame
      rw [hr.arraysInterned.again s t h' hs hsame hl]
      exact .refl _
  declared c h₁ hd := by
    have hc := hd.creates
    have hpresent : h₁.types.Has c := hc.has_iff.mpr (.inr rfl)
    refine ⟨fun hn u hu hsame => ?_, fun t h' hl hn => ?_⟩
    · have heq := TypeGraph.eq_of_same hn (hc.has_iff.mpr (.inl hu)) hpresent hsame
      exact hc.not_has (heq ▸ hu)
    · have hk := hl.extends.types
      exact ((hr.step hd.step).leadsTo hl).arrayType_not_same (hk.has hpresent)
        ((hk.element? hpresent).trans hd.element?) hn
  known c t hc he hn := by
    have hk := hr.sound.types.known
    exact hr.arrayType_not_same (hk.has hc) ((hk.element? hc).trans he) hn

/-- **Types.** The types of a host are founded, the recursions over them end, and there is one array
type over each. They are told apart as long as there is a number for each. -/
theorem Reachable.types_founded (hr : h.Reachable) :
    h.Founded ∧ h.RecursionsEnd ∧ h.ArraysInterned ∧ h.ToldApart :=
  ⟨hr.founded, hr.recursionsEnd, hr.arraysInterned, hr.toldApart⟩

/-- A new host with a class that has the name of an array type. -/
def namesake : Host := (initial.declareClass "Object[]" none []).2

theorem declares_namesake : initial.DeclaresType ⟨25⟩ namesake :=
  .classType "Object[]" none [] nofun nofun

/-- The array type of that name is another type, and it is found again. -/
theorem types_founded_namesake :
    let array := (namesake.arrayType Builtin.object).1
    let h := (namesake.arrayType Builtin.object).2
    h.Reachable ∧ h.types.name array = h.types.name ⟨25⟩ ∧ h.types.size ≤ TypeId.numbers ∧
      ¬ array.Same ⟨25⟩ ∧ h.types.element? array = some Builtin.object ∧
      h.arrayType Builtin.object = (array, h) ∧
      ¬ Relation.TransGen h.types.RestsOn array array ∧
      (∃ memo, h.types.measure Builtin.object 27 .empty (some array) =
        some (h.types.distance Builtin.object (some array), memo)) ∧
      h.types.collect 27 [] array = some (h.types.lineage array) ∧
      h.types.collect 1 [] array = none := by
  intro array h
  have hr : namesake.Reachable := .step .initial declares_namesake.step
  have hh : h.Reachable := hr.step (.arrayType Builtin.object (by decide))
  obtain ⟨-, -, -, happart⟩ := Reachable.initial.types_founded
  obtain ⟨-, -, harrays, -⟩ := hr.types_founded
  obtain ⟨hfounded, hends, -, -⟩ := hh.types_founded
  obtain ⟨memo, hmeasure, -⟩ := hends.distance Builtin.object array 27 (by decide) .empty
    (TypeGraph.remembers_empty _ _)
  have hsize : h.types.size ≤ TypeId.numbers := by decide
  exact ⟨hh, by decide, hsize, (happart.declared _ _ declares_namesake).2 _ _ .refl hsize, rfl,
    harrays.again _ _ _ (by decide) (.refl _) .refl, hfounded.acyclic array,
    ⟨memo, hmeasure⟩, hends.lineage array 27 (by decide) (by decide), by decide⟩

/-- A host with as many more classes. -/
def crowd (h : Host) : Nat → Host
  | 0 => h
  | count + 1 => ((crowd h count).declareClass "C" none []).2

theorem crowd_leadsTo (h : Host) (count : Nat) : h.LeadsTo (h.crowd count) := by
  induction count with
  | zero => exact .refl
  | succ count ih => exact ih.tail (.declareClass "C" none [] nofun nofun)

theorem size_crowd (h : Host) (count : Nat) :
    (h.crowd count).types.size = h.types.size + count := by
  induction count with
  | zero => rfl
  | succ count ih =>
    rw [← Nat.add_assoc, ← ih]
    exact TypeGraph.size_add _ _

/-- **Reuse.** In some run the class that is declared next gets the number of an array type that is
there and is found. As many classes as there are other numbers have been declared in between. -/
theorem exists_reused_number : ∃ (h h₁ : Host) (a c : TypeId), h.Reachable ∧
    h.types.element? a = some Builtin.object ∧ h.arrayType Builtin.object = (a, h) ∧
    h.DeclaresType c h₁ ∧ h₁.types.Has a ∧ h₁.types.element? c = none ∧ a ≠ c ∧ a.Same c := by
  obtain ⟨count, hcount⟩ : ∃ count, count + 1 = TypeId.numbers := ⟨TypeId.numbers - 1, by decide⟩
  have hl := (ofArray Builtin.object).crowd_leadsTo count
  have hsize := (ofArray Builtin.object).size_crowd count
  have harray : (ofArray Builtin.object).Reachable := reachable_ofArray (by decide)
  have hr := harray.leadsTo hl
  have hfirst : (ofArray Builtin.object).types.element? ⟨25⟩ = some Builtin.object := by decide
  have helement : ((ofArray Builtin.object).crowd count).types.element? ⟨25⟩ =
      some Builtin.object := by
    rw [hl.extends.types.element? (TypeGraph.has_of_element? hfirst), hfirst]
  have hd : ((ofArray Builtin.object).crowd count).DeclaresType _ _ :=
    .classType "C" none [] nofun nofun
  have hindex := hd.creates.index_eq
  have hold : (ofArray Builtin.object).types.size = 26 := by decide
  rw [hsize, hold] at hindex
  refine ⟨_, _, ⟨25⟩, _, hr, helement, hr.arrayType_eq helement (.refl _), hd,
    hd.creates.has_iff.mpr (.inl (TypeGraph.has_of_element? helement)), hd.element?, ?_, ?_⟩
  · intro heq
    have hplace : 25 = 26 + count := (congrArg TypeId.index heq).trans hindex
    omega
  · rw [TypeId.same_iff, hindex]
    simp only [TypeId.numbers] at hcount ⊢
    omega

end Host

end Interop
