import Interop.Proofs.Host.Effect
import Interop.Proofs.Members.Visible

/-!
# What a draft comes to

A draft goes on after an invalid name, but only the first one counts and nothing is attached then.
Else its members are those that were declared.

* `Draft.declareAll_eq`: a draft after some declarations.
* `Catalog.build_declareAll`: to build a draft is to define all its declarations at once.
* `FirstInvalid`: the name that is reported. `Members.ListedIn`: the members that are attached.
* `Host.Built`: what building a draft should come to. `Host.build_iff_built`: it does.
* `Host.Reachable.build_outcome`: the same for runs, and members that are attached stay.
-/

namespace Interop

/-! ## Names -/

/-- The name that a field or a method is declared with. -/
def Declaration.name? : Declaration → Option String
  | field name .. => some name
  | method name .. => some name
  | _ => none

theorem isMemberName_iff {name : String} :
    isMemberName name = true ↔ name ≠ "" ∧ name ≠ nameOfConstructors := by
  simp [isMemberName]

theorem Declaration.invalidName?_eq_some_iff {d : Declaration} {name : String} :
    d.invalidName? = some name ↔ d.name? = some name ∧ (name = "" ∨ name = nameOfConstructors) := by
  cases d with
  | field n _ _ _ | method n _ _ _ =>
    by_cases hn : isMemberName n = true
    · obtain ⟨hempty, hreserved⟩ := isMemberName_iff.mp hn
      simp only [invalidName?, name?, hn, if_true, Option.some.injEq]
      grind
    · have hbad := hn
      rw [isMemberName_iff] at hbad
      simp only [invalidName?, name?, hn, Option.some.injEq]
      grind
  | constructor _ _ | nested _ _ => simp [invalidName?, name?]

theorem Declaration.invalidName?_eq_none_iff {d : Declaration} :
    d.invalidName? = none ↔ ∀ name ∈ d.name?, name ≠ "" ∧ name ≠ nameOfConstructors := by
  rw [Option.eq_none_iff_forall_ne_some]
  simp only [ne_eq, invalidName?_eq_some_iff, Option.mem_def]
  grind

/-- `name` is the first name in the declarations that a field or a method may not have. -/
def FirstInvalid (ds : List Declaration) (name : String) : Prop :=
  ∃ before d after, ds = before ++ d :: after ∧ d.name? = some name ∧
    (name = "" ∨ name = nameOfConstructors) ∧
    ∀ b ∈ before, ∀ n ∈ b.name?, n ≠ "" ∧ n ≠ nameOfConstructors

theorem firstInvalid_iff {ds : List Declaration} {name : String} :
    FirstInvalid ds name ↔ ds.findSome? Declaration.invalidName? = some name := by
  simp only [List.findSome?_eq_some_iff, FirstInvalid, Declaration.invalidName?_eq_some_iff,
    Declaration.invalidName?_eq_none_iff, and_assoc]

/-! ## Members by kind -/

namespace Declaration

variable (owner : TypeId)

/-- The field that is declared, once its position among the fields is known. -/
def field? : Declaration → Option (Nat → Field)
  | field name type modifiers access =>
    some fun slot => ⟨name, type, modifiers, owner, access, slot⟩
  | _ => none

def method? : Declaration → Option Method
  | method name parameters result modifiers => some ⟨name, parameters, result, modifiers, owner⟩
  | _ => none

def constructor? : Declaration → Option Constructor
  | constructor parameters modifiers => some ⟨parameters, modifiers, owner⟩
  | _ => none

def nested? : Declaration → Option NestedType
  | nested type modifiers => some ⟨type, modifiers⟩
  | _ => none

end Declaration

namespace Members

variable {owner : TypeId} {ds : List Declaration} {m : Members}

/-- The members are those of the declarations, each kind in their order, and they belong to
`owner`. -/
structure ListedIn (m : Members) (owner : TypeId) (ds : List Declaration) : Prop where
  fields : m.fields = (ds.filterMap (·.field? owner)).mapIdx fun slot field => field slot
  methods : m.methods = ds.filterMap (·.method? owner)
  constructors : m.constructors = ds.filterMap (·.constructor? owner)
  nested : m.nested = ds.filterMap (·.nested?)

theorem fields_foldl (owner : TypeId) (ds : List Declaration) (m : Members) :
    (ds.foldl (add owner) m).fields =
      m.fields ++ (ds.filterMap (·.field? owner)).mapIdx
        fun slot field => field (m.fields.length + slot) := by
  induction ds generalizing m with
  | nil => simp
  | cons d ds ih =>
    rw [List.foldl_cons, ih]
    cases d with
    | field name type modifiers access =>
      simp [add, Declaration.field?, List.mapIdx_cons, Nat.add_assoc, Nat.add_comm 1]
    | method _ _ _ _ | constructor _ _ | nested _ _ => simp [add, Declaration.field?]

/-- A kind of which each declaration adds what `own?` finds in it. -/
theorem kind_foldl {α : Type} {kind : Members → List α} {own? : Declaration → Option α}
    (hadd : ∀ m d, kind (m.add owner d) = kind m ++ (own? d).toList) (ds : List Declaration)
    (m : Members) : kind (ds.foldl (add owner) m) = kind m ++ ds.filterMap own? := by
  induction ds generalizing m with
  | nil => simp
  | cons d ds ih =>
    rw [List.foldl_cons, ih, hadd, List.append_assoc, List.filterMap_cons]
    cases own? d <;> rfl

/-- **Members.** The members of some declarations are those, kind by kind. -/
theorem listedIn_ofDeclarations (owner : TypeId) (ds : List Declaration) :
    (ofDeclarations owner ds).ListedIn owner ds where
  fields := by simp [ofDeclarations, fields_foldl, empty]
  methods := kind_foldl (fun m d => by cases d <;> simp [add, Declaration.method?]) ds empty
  constructors :=
    kind_foldl (fun m d => by cases d <;> simp [add, Declaration.constructor?]) ds empty
  nested := kind_foldl (fun m d => by cases d <;> simp [add, Declaration.nested?]) ds empty

/-- The declarations leave no freedom. -/
theorem ListedIn.eq_ofDeclarations (h : m.ListedIn owner ds) : m = ofDeclarations owner ds := by
  have hm := listedIn_ofDeclarations owner ds
  cases m
  cases hd : ofDeclarations owner ds
  rw [hd] at hm
  simp only [mk.injEq]
  exact ⟨h.fields.trans hm.fields.symm, h.methods.trans hm.methods.symm,
    h.constructors.trans hm.constructors.symm, h.nested.trans hm.nested.symm⟩

/-- A field knows its position. -/
theorem ListedIn.getElem?_slot (h : m.ListedIn owner ds) {f : Field} (hf : f ∈ m.fields) :
    m.fields[f.slot]? = some f := by
  rw [h.fields] at hf ⊢
  obtain ⟨slot, hslot, rfl⟩ := List.mem_mapIdx.mp hf
  have hmem := List.getElem_mem hslot
  have hat : (ds.filterMap (·.field? owner))[slot]? =
      some (ds.filterMap (·.field? owner))[slot] := List.getElem?_eq_getElem hslot
  generalize (ds.filterMap (·.field? owner))[slot] = field at hmem hat ⊢
  obtain ⟨d, -, hd⟩ := List.mem_filterMap.mp hmem
  cases d <;> cases hd
  rw [List.getElem?_mapIdx, hat]
  rfl

/-- All members that belong to a type belong to the one that declares them. -/
theorem ListedIn.declaring (h : m.ListedIn owner ds) :
    (∀ f ∈ m.fields, f.declaring = owner) ∧ (∀ x ∈ m.methods, x.declaring = owner) ∧
      ∀ c ∈ m.constructors, c.declaring = owner := by
  refine ⟨fun f hf => ?_, fun x hx => ?_, fun c hc => ?_⟩
  · rw [h.fields] at hf
    obtain ⟨slot, hslot, rfl⟩ := List.mem_mapIdx.mp hf
    have hmem := List.getElem_mem hslot
    generalize (ds.filterMap (·.field? owner))[slot] = field at hmem ⊢
    obtain ⟨d, -, hd⟩ := List.mem_filterMap.mp hmem
    cases d <;> cases hd
    rfl
  · rw [h.methods] at hx
    obtain ⟨d, -, hd⟩ := List.mem_filterMap.mp hx
    cases d <;> cases hd
    rfl
  · rw [h.constructors] at hc
    obtain ⟨d, -, hd⟩ := List.mem_filterMap.mp hc
    cases d <;> cases hd
    rfl

end Members

/-! ## Drafts -/

namespace Draft

variable {d : Draft} {ds : List Declaration}

/-- **Declarations.** A draft keeps the first invalid name and all members with valid names. -/
theorem declareAll_eq (d : Draft) (ds : List Declaration) :
    d.declareAll ds =
      ⟨d.owner,
        (ds.filter fun x => x.invalidName?.isNone).foldl (Members.add d.owner) d.members,
        d.invalid.or (ds.findSome? Declaration.invalidName?)⟩ := by
  induction ds generalizing d with
  | nil => simp [declareAll]
  | cons x ds ih =>
    have hstep : d.declareAll (x :: ds) = (d.declare x).declareAll ds := rfl
    rw [hstep, ih]
    cases hx : x.invalidName? with
    | none => simp [declare, hx]
    | some name => simp [declare, hx]

end Draft

namespace Catalog

/-- Building a draft comes to the same as defining all that has been declared at once. -/
theorem build_declareAll (c : Catalog) (t : TypeId) (ds : List Declaration) :
    c.build ((Draft.start t).declareAll ds) = c.define t ds := by
  rw [Draft.declareAll_eq, build, define]
  cases hn : ds.findSome? Declaration.invalidName? with
  | some name => rfl
  | none =>
    have hvalid : (ds.filter fun x => x.invalidName?.isNone) = ds := by
      rw [List.filter_eq_self]
      intro x hx
      rw [List.findSome?_eq_none_iff.mp hn x hx]
      rfl
    rw [hvalid]
    rfl

end Catalog

/-! ## Hosts -/

namespace Host

variable {h : Host} {t : TypeId} {ds : List Declaration}

/-- What it should come to when a type is given its members by some declarations.

An invalid name is reported, the first one, whether or not the type has members. Else members that
the type has are reported. In both cases nothing changes. Else the type gets the members that were
declared, and nothing else changes. -/
inductive Built (h : Host) (t : TypeId) (ds : List Declaration) :
    Except MemberError TypeId × Host → Prop
  | badName {name : String} (hn : FirstInvalid ds name) :
      Built h t ds (.error (.badName (h.types.name t) name), h)
  | alreadyDeclared {m : Members} (valid : ∀ name, ¬ FirstInvalid ds name)
      (hm : h.catalog.members.get? t = some m) :
      Built h t ds (.error (.alreadyDeclared (h.types.name t)), h)
  | attached {m : Members} (valid : ∀ name, ¬ FirstInvalid ds name)
      (free : h.catalog.members.get? t = none) (hm : m.ListedIn t ds) :
      Built h t ds
        (.ok t, { h with catalog := { h.catalog with members := h.catalog.members.insert t m } })

theorem findSome?_eq_none_of_valid (valid : ∀ name, ¬ FirstInvalid ds name) :
    ds.findSome? Declaration.invalidName? = none :=
  Option.eq_none_iff_forall_ne_some.mpr fun name hn => valid name (firstInvalid_iff.mpr hn)

/-- There is one thing that building comes to. -/
theorem Built.build_eq {outcome : Except MemberError TypeId × Host} (hb : h.Built t ds outcome) :
    h.build ((Draft.start t).declareAll ds) = outcome := by
  rw [build, Catalog.build_declareAll, Catalog.define]
  cases hb with
  | badName hn =>
    rw [firstInvalid_iff.mp hn]
    rfl
  | alreadyDeclared valid hm =>
    rw [findSome?_eq_none_of_valid valid]
    simp only [Catalog.attach, TypeMap.contains, hm, Option.isSome_some, if_true]
    rfl
  | attached valid free hm =>
    rw [findSome?_eq_none_of_valid valid, hm.eq_ofDeclarations]
    simp [Catalog.attach, TypeMap.contains, free, Draft.declareAll_eq, Draft.start]

theorem exists_built (h : Host) (t : TypeId) (ds : List Declaration) :
    ∃ outcome, h.Built t ds outcome := by
  by_cases valid : ∀ name, ¬ FirstInvalid ds name
  · cases hm : h.catalog.members.get? t with
    | none => exact ⟨_, .attached valid hm (Members.listedIn_ofDeclarations t ds)⟩
    | some m => exact ⟨_, .alreadyDeclared valid hm⟩
  · obtain ⟨name, hn⟩ := not_forall_not.mp valid
    exact ⟨_, .badName hn⟩

/-- **Building.** A draft comes to what it should come to. -/
theorem build_iff_built {outcome : Except MemberError TypeId × Host} :
    h.build ((Draft.start t).declareAll ds) = outcome ↔ h.Built t ds outcome := by
  refine ⟨?_, Built.build_eq⟩
  rintro rfl
  obtain ⟨outcome, hb⟩ := h.exists_built t ds
  rwa [hb.build_eq]

/-- Whatever it comes to, no other type gets or loses members. -/
theorem Built.others {outcome : Except MemberError TypeId × Host} (hb : h.Built t ds outcome)
    {u : TypeId} (hu : u ≠ t) :
    outcome.2.catalog.members.get? u = h.catalog.members.get? u := by
  cases hb with
  | badName | alreadyDeclared => rfl
  | attached => exact (TypeMap.get?_insert _ _ _ _).trans (if_neg hu.symm)

theorem Built.listed {outcome : Except MemberError TypeId × Host} (hb : h.Built t ds outcome)
    (ok : outcome.1 = .ok t) :
    ∃ m, outcome.2.catalog.members.get? t = some m ∧ m.ListedIn t ds := by
  cases hb with
  | badName | alreadyDeclared => cases ok
  | @attached m _ _ hm => exact ⟨m, (TypeMap.get?_insert _ _ _ _).trans (if_pos rfl), hm⟩

/-- Building is an operation, or fails and changes nothing. -/
theorem leadsTo_build (ht : h.types.Has t) (hd : ∀ d ∈ ds, ∀ u ∈ d.mentions, h.types.Has u) :
    h.LeadsTo (h.build ((Draft.start t).declareAll ds)).2 := by
  rw [build, Catalog.build_declareAll]
  cases hdefine : h.catalog.define t ds with
  | error e => exact .refl
  | ok c =>
    refine .single (.define t ds ht hd ?_)
    rw [define, hdefine]
    rfl

/-- **Building in runs.** In a host that a run comes to, a type is given its members as `Built`
says. A draft does not read the host, so it makes no difference what has happened since its first
declaration. Other types keep their members, and what a type has no later operation changes. -/
theorem Reachable.build_outcome (hr : h.Reachable) {t : TypeId} (ht : h.types.Has t)
    {ds : List Declaration} (hd : ∀ d ∈ ds, ∀ u ∈ d.mentions, h.types.Has u) :
    (∀ outcome, h.build ((Draft.start t).declareAll ds) = outcome ↔ h.Built t ds outcome) ∧
      (h.build ((Draft.start t).declareAll ds)).2.Reachable ∧
      (∀ u ≠ t, (h.build ((Draft.start t).declareAll ds)).2.catalog.members.get? u =
        h.catalog.members.get? u) ∧
      ((h.build ((Draft.start t).declareAll ds)).1 = .ok t →
        ∃ m, (h.build ((Draft.start t).declareAll ds)).2.catalog.members.get? t = some m ∧
          m.ListedIn t ds ∧ (∀ f ∈ m.fields, f.declaring = t) ∧
          (∀ x ∈ m.methods, x.declaring = t) ∧ ∀ c ∈ m.constructors, c.declaring = t) ∧
      ∀ u m, h.catalog.members.get? u = some m →
        ∀ h', h.LeadsTo h' → h'.catalog.members.get? u = some m := by
  have hb : h.Built t ds (h.build ((Draft.start t).declareAll ds)) := build_iff_built.mp rfl
  refine ⟨fun _ => build_iff_built, hr.leadsTo (leadsTo_build ht hd), fun _ => hb.others,
    fun ok => ?_, fun u m hm h' hl => hl.extends.members u m hm⟩
  obtain ⟨m, hget, hm⟩ := hb.listed ok
  exact ⟨m, hget, hm, hm.declaring⟩

/-! ## A draft that comes too late -/

/-- Declarations with two invalid names. -/
def invalidDeclarations : List Declaration :=
  [.constructor [] ⟨true, false, false, false, false⟩,
    .method "" [] none ⟨true, false, false, false, false⟩,
    .field nameOfConstructors Builtin.object ⟨true, false, false, false, false⟩ .relaxable]

/-- The diamond after the first interface has been given members. -/
def declaredDiamond : Host :=
  { diamond with catalog := { diamond.catalog with
      members := diamond.catalog.members.insert ⟨25⟩ (.ofDeclarations ⟨25⟩ Catalog.declaredItems) } }

theorem reachable_declaredDiamond : declaredDiamond.Reachable :=
  reachable_diamond.step (.define ⟨25⟩ Catalog.declaredItems (by decide) (by decide) rfl)

/-- The first invalid name is reported although the type has members already. -/
theorem build_outcome_invalid :
    declaredDiamond.Reachable ∧ declaredDiamond.types.Has ⟨25⟩ ∧
      (∀ d ∈ invalidDeclarations, ∀ u ∈ d.mentions, declaredDiamond.types.Has u) ∧
      (declaredDiamond.catalog.members.get? ⟨25⟩).isSome = true ∧
      declaredDiamond.build ((Draft.start ⟨25⟩).declareAll invalidDeclarations) =
        (.error (.badName "Named" ""), declaredDiamond) := by
  have hd : ∀ d ∈ invalidDeclarations, ∀ u ∈ d.mentions, declaredDiamond.types.Has u := by decide
  refine ⟨reachable_declaredDiamond, by decide, hd, by decide, ?_⟩
  exact ((reachable_declaredDiamond.build_outcome (by decide) hd).1 _).mpr
    (.badName (firstInvalid_iff.mpr (by decide)))

end Host

end Interop
