import Interop.Proofs.Members.Draft
import Interop.Proofs.Surface.NameTable
import Interop.Proofs.Surface.Snapshot

/-!
# The name of constructors

A surface finds constructors among the methods, under a name that declarations cannot give to a
method. Members that are attached as they are can have a method of this name. It is listed then, but
the name finds the constructors.

* `Catalog.methodsNamed`: the overload set of a name. It is what a table of methods finds.
* `Catalog.Reserved`: no type in a lineage has a public method with the name of constructors. This
  holds if all of them were given their members by valid declarations (`reserved_of_drafted`).
* `Host.TellsApart`: no method has the name of constructors, and each name finds what it should.
* `Host.Reachable.tellsApart_iff`: in every run, this holds of a type just if the name is reserved.
-/

namespace Interop

/-! ## Methods by name -/

theorem OverloadSet.ofList?_eq_none_iff {name : String} {candidates : List Callable} :
    ofList? name candidates = none ↔ candidates = [] := by
  cases candidates <;> simp [ofList?]

namespace Catalog

variable {c : Catalog} {t u : TypeId} {name : String}

/-- The public methods of a name. -/
def methodsNamed (c : Catalog) (t : TypeId) (name : String) : Option OverloadSet :=
  OverloadSet.ofList? name (((c.visibleMethods t).filter (·.name = name)).map .method)

theorem methodsNamed_eq_none_iff :
    c.methodsNamed t name = none ↔ ∀ m ∈ c.visibleMethods t, m.name ≠ name := by
  simp [methodsNamed, OverloadSet.ofList?_eq_none_iff]

/-- **Methods by name.** Under every name the table of methods finds its overload set. -/
theorem get?_methodTable : (c.methodTable t).get? name = c.methodsNamed t name := by
  refine NameTable.get?_build_of_mem fun o ho => ?_
  have hsome : c.methodsNamed t name ≠ none := fun hnone => nomatch hnone.symm.trans ho
  rw [Ne, methodsNamed_eq_none_iff] at hsome
  push Not at hsome
  obtain ⟨m, hm, rfl⟩ := hsome
  exact List.mem_map_of_mem hm

theorem mem_names_methodTable :
    name ∈ (c.methodTable t).names ↔ ∃ m ∈ c.visibleMethods t, m.name = name := by
  rw [methodTable, NameTable.mem_names_build, List.mem_map]
  refine and_iff_left_of_imp ?_
  rintro ⟨m, hm, rfl⟩
  refine Option.ne_none_iff_exists'.mp fun hnone => ?_
  exact methodsNamed_eq_none_iff.mp hnone m hm rfl

/-- No overload set of methods is one of constructors. -/
theorem methodsNamed_ne_constructors? {c' : Catalog} {m : Method} (hm : m ∈ c.visibleMethods t) :
    c.methodsNamed t m.name ≠ c'.constructors? u := by
  intro heq
  have hmem : m ∈ (c.visibleMethods t).filter (·.name = m.name) := by simpa using hm
  rw [methodsNamed, constructors?] at heq
  cases hms : (c.visibleMethods t).filter (·.name = m.name) with
  | nil => rw [hms] at hmem; cases hmem
  | cons first others =>
    rw [hms] at heq
    cases hcs : c'.visibleConstructors u with
    | nil => rw [hcs] at heq; cases heq
    | cons x xs =>
      rw [hcs] at heq
      cases congrArg OverloadSet.first (Option.some.inj heq)

/-! ## The reserved name -/

/-- No type in the lineage has a public method with the name of constructors. -/
def Reserved (c : Catalog) (t : TypeId) : Prop :=
  ∀ u ∈ c.types.lineage t, ∀ m ∈ c.publicMethods u, m.name ≠ nameOfConstructors

theorem mem_flatMap_of_visibleMethods {m : Method} (hm : m ∈ c.visibleMethods t) :
    ∃ u ∈ c.types.lineage t, m ∈ c.publicMethods u := by
  rw [visibleMethods_eq] at hm
  exact List.mem_flatMap.mp (mem_of_mem_firstBy hm)

/-- A public method can be hidden, but only by one of its name. -/
theorem exists_visibleMethod {m : Method} (hu : u ∈ c.types.lineage t)
    (hm : m ∈ c.publicMethods u) : ∃ m' ∈ c.visibleMethods t, m'.name = m.name := by
  rw [visibleMethods_eq]
  obtain ⟨m', hm', heq⟩ : ∃ m' ∈ firstBy Method.signature ((c.types.lineage t).flatMap
      c.publicMethods), m'.signature = m.signature :=
    exists_mem_firstBy (List.mem_flatMap.mpr ⟨u, hu, hm⟩)
  exact ⟨m', hm', congrArg Prod.fst heq⟩

theorem reserved_iff_visible :
    c.Reserved t ↔ ∀ m ∈ c.visibleMethods t, m.name ≠ nameOfConstructors := by
  constructor
  · intro h m hm
    obtain ⟨u, hu, hm⟩ := mem_flatMap_of_visibleMethods hm
    exact h u hu m hm
  · intro h u hu m hm heq
    obtain ⟨m', hm', hname⟩ := exists_visibleMethod hu hm
    exact h m' hm' (hname.trans heq)

/-- The type has no members, or was given those of valid declarations. -/
def Drafted (c : Catalog) (u : TypeId) : Prop :=
  ∀ m, c.members.get? u = some m → ∃ ds, (∀ name, ¬ FirstInvalid ds name) ∧ m.ListedIn u ds

/-- **Declarations.** Valid declarations keep the name reserved. -/
theorem reserved_of_drafted (h : ∀ u ∈ c.types.lineage t, c.Drafted u) : c.Reserved t := by
  intro u hu x hx heq
  obtain ⟨hx, -⟩ := List.mem_filter.mp hx
  cases hm : c.members.get? u with
  | none => rw [hm] at hx; cases hx
  | some m =>
    obtain ⟨ds, valid, hlisted⟩ := h u hu m hm
    rw [hm, Option.map_some, Option.getD_some, hlisted.methods] at hx
    obtain ⟨d, hd, hx⟩ := List.mem_filterMap.mp hx
    have hnone := List.findSome?_eq_none_iff.mp (Host.findSome?_eq_none_of_valid valid) d hd
    cases d with
    | method name parameters result modifiers =>
      cases hx
      exact (Declaration.invalidName?_eq_none_iff.mp hnone name rfl).2 heq
    | field _ _ _ _ | constructor _ _ | nested _ _ => cases hx

end Catalog

namespace Host

variable {h h₀ h₁ : Host} {t : TypeId} {name : String}

/-! ## Shared surfaces -/

/-- The names of methods that the shared surface of a type lists. -/
def methodNames (h : Host) (t : TypeId) : List String := (h.sharedPart t .methods).names

/-- What the shared surface of a type finds as the method of a name. -/
def methodNamed? (h : Host) (t : TypeId) (name : String) : Option OverloadSet :=
  ((h.sharedSurface t).2.method? (h.sharedSurface t).1 name).1

theorem methodNamed?_constructors (h : Host) (t : TypeId) :
    h.methodNamed? t nameOfConstructors = h.sharedPart t .constructors := by
  rw [methodNamed?, method?, if_pos rfl]
  rfl

theorem methodNamed?_of_ne (hn : name ≠ nameOfConstructors) :
    h.methodNamed? t name = (h.sharedPart t .methods).get? name := by
  rw [methodNamed?, method?, if_neg hn]
  rfl

/-- **Attached members.** The name is reserved just if no members with a public method of this name
have been attached to a type in the lineage. -/
theorem Reachable.reserved_iff_attached (hr : h.Reachable) (t : TypeId) :
    h.catalog.Reserved t ↔
      ∀ h₀ h₁ : Host, h₀.Reachable → h₁.LeadsTo h → ∀ u ∈ h.types.lineage t, ∀ m,
        h₀.attach u m = .ok h₁ →
          ∀ x ∈ m.methods, x.modifiers.isPublic = true → x.name ≠ nameOfConstructors := by
  constructor
  · intro hres h₀ h₁ _ hl u hu m ok x hx hpublic
    have hm := hl.extends.members u m (members_of_attach ok)
    refine hres u hu x (List.mem_filter.mpr ⟨?_, hpublic⟩)
    rw [hm]
    exact hx
  · intro hall u hu x hx
    obtain ⟨hx, hpublic⟩ := List.mem_filter.mp hx
    cases hm : h.catalog.members.get? u with
    | none => rw [hm] at hx; cases hx
    | some m =>
      rw [hm] at hx
      obtain ⟨h₀, h₁, hr₀, ok, hl⟩ := hr.exists_attached hm
      exact hall h₀ h₁ hr₀ hl u hu m ok x hx hpublic

/-- What was reserved later was reserved before: members stay, and so does the lineage. -/
theorem Extends.reserved (hk : h₀.Extends h) (hr₀ : h₀.Reachable) (hr : h.Reachable)
    (ht : h₀.types.Has t) (hres : h.catalog.Reserved t) : h₀.catalog.Reserved t := by
  intro u hu x hx
  have hl : h.catalog.types.lineage t = h₀.catalog.types.lineage t :=
    hr₀.sound.types.lineage_growsTo hr.sound.types hk.types ht
  refine hres u (hl ▸ hu) x ?_
  cases hm : h₀.catalog.members.get? u with
  | none => simp [Catalog.publicMethods, hm] at hx
  | some m =>
    rw [Catalog.publicMethods, hm] at hx
    rw [Catalog.publicMethods, hk.members u m hm]
    exact hx

/-- The names that are listed are those of the methods when they were first asked for. -/
theorem FirstAsked.mem_methodNames_iff (hf : h₀.FirstAsked h t .methods) (hh : h₀.Coherent) :
    name ∈ h.methodNames t ↔ ∃ m ∈ h₀.catalog.visibleMethods t, m.name = name := by
  rw [methodNames, hf.sharedPart_eq hh]
  exact Catalog.mem_names_methodTable

theorem FirstAsked.methodNamed?_eq (hf : h₀.FirstAsked h t .methods) (hh : h₀.Coherent)
    (hn : name ≠ nameOfConstructors) :
    h.methodNamed? t name = h₀.catalog.methodsNamed t name := by
  rw [methodNamed?_of_ne hn, hf.sharedPart_eq hh]
  exact Catalog.get?_methodTable

theorem FirstAsked.constructors_eq (hf : h₁.FirstAsked h t .constructors) (hh : h₁.Coherent) :
    h.methodNamed? t nameOfConstructors = h₁.catalog.constructors? t := by
  rw [methodNamed?_constructors, hf.sharedPart_eq hh]
  rfl

theorem FirstAsked.notMem_methodNames_iff (hf : h₀.FirstAsked h t .methods) (hh : h₀.Coherent) :
    nameOfConstructors ∉ h.methodNames t ↔ h₀.catalog.Reserved t := by
  rw [hf.mem_methodNames_iff hh, Catalog.reserved_iff_visible]
  push Not
  rfl

/-! ## Methods and constructors -/

/-- What should hold of the methods and constructors of `t`, whose shared surface was first asked
for its methods in `h₀` and for its constructors in `h₁`. -/
structure TellsApart (h h₀ h₁ : Host) (t : TypeId) : Prop where
  visible : ∀ m ∈ h.catalog.visibleMethods t, m.name ≠ nameOfConstructors
  unlisted : nameOfConstructors ∉ h.methodNames t
  methods : ∀ name ∈ h.methodNames t, h.methodNamed? t name = h₀.catalog.methodsNamed t name
  constructors : h.methodNamed? t nameOfConstructors = h₁.catalog.constructors? t

/-- Listed names find their methods just if the name of constructors is not listed. -/
theorem FirstAsked.methods_iff (hf : h₀.FirstAsked h t .methods) (hh : h₀.Coherent)
    (hf₁ : h₁.FirstAsked h t .constructors) (hh₁ : h₁.Coherent) :
    (∀ name ∈ h.methodNames t, h.methodNamed? t name = h₀.catalog.methodsNamed t name) ↔
      nameOfConstructors ∉ h.methodNames t := by
  constructor
  · intro hall hlisted
    obtain ⟨m, hm, hname⟩ := (hf.mem_methodNames_iff hh).mp hlisted
    have heq := hall _ hlisted
    rw [hf₁.constructors_eq hh₁, ← hname] at heq
    exact Catalog.methodsNamed_ne_constructors? hm heq.symm
  · intro hunlisted name hlisted
    exact hf.methodNamed?_eq hh fun heq => hunlisted (heq ▸ hlisted)

/-- **The name of constructors.** In every run, the methods and constructors of a type are told
apart just if the name of constructors is reserved in its lineage: in the run, no members with a
public method of this name have been attached as they are. That is so if all types of the lineage
were given their members by valid declarations. If not, all other names still find their methods,
and the name finds the constructors, but it is listed too. -/
theorem Reachable.tellsApart_iff (hr : h.Reachable) {t : TypeId} (ht : h.types.Has t) :
    (∃ h₀ : Host, h₀.Reachable ∧ h₀.FirstAsked h t .methods) ∧
      (∃ h₁ : Host, h₁.Reachable ∧ h₁.FirstAsked h t .constructors) ∧
      (∀ h₀ h₁ : Host, h₀.Reachable → h₀.FirstAsked h t .methods →
        h₁.Reachable → h₁.FirstAsked h t .constructors →
          (h.TellsApart h₀ h₁ t ↔ h.catalog.Reserved t) ∧
          (nameOfConstructors ∉ h.methodNames t ↔ h₀.catalog.Reserved t) ∧
          ((∀ name ∈ h.methodNames t, h.methodNamed? t name = h₀.catalog.methodsNamed t name) ↔
            h₀.catalog.Reserved t) ∧
          (∀ name ≠ nameOfConstructors,
            h.methodNamed? t name = h₀.catalog.methodsNamed t name) ∧
          h.methodNamed? t nameOfConstructors = h₁.catalog.constructors? t) ∧
      (h.catalog.Reserved t ↔
        ∀ h₀ h₁ : Host, h₀.Reachable → h₁.LeadsTo h → ∀ u ∈ h.types.lineage t, ∀ m,
          h₀.attach u m = .ok h₁ →
            ∀ x ∈ m.methods, x.modifiers.isPublic = true → x.name ≠ nameOfConstructors) ∧
      ((∀ u ∈ h.types.lineage t, h.catalog.Drafted u) → h.catalog.Reserved t) := by
  refine ⟨hr.exists_firstAsked t _, hr.exists_firstAsked t _, ?_, hr.reserved_iff_attached t,
    Catalog.reserved_of_drafted⟩
  intro h₀ h₁ hr₀ hf₀ hr₁ hf₁
  have hunlisted := hf₀.notMem_methodNames_iff hr₀.coherent
  have hmethods := hf₀.methods_iff hr₀.coherent hf₁ hr₁.coherent
  have hconstructors := hf₁.constructors_eq hr₁.coherent
  refine ⟨⟨fun h => Catalog.reserved_iff_visible.mpr h.visible, fun hres => ?_⟩, hunlisted,
    hmethods.trans hunlisted, fun name hn => hf₀.methodNamed?_eq hr₀.coherent hn, hconstructors⟩
  obtain ⟨hk, ht₀⟩ := hf₀.extends hr₀.coherent ht
  have hres₀ : h₀.catalog.Reserved t := hk.reserved hr₀ hr ht₀ hres
  exact
    { visible := Catalog.reserved_iff_visible.mp hres
      unlisted := hunlisted.mpr hres₀
      methods := hmethods.mpr (hunlisted.mpr hres₀)
      constructors := hconstructors }

/-! ## A class with a method named like its constructors -/

theorem drafted_withSample {u : TypeId} (hu : u ∈ sample.types.lineage ⟨25⟩) :
    (sample.withSample ⟨25⟩).catalog.Drafted u := by
  have hvalid : sampleMembers.findSome? Declaration.invalidName? = none := by decide
  intro m hm
  rw [lineage_sample, List.mem_pair] at hu
  rcases hu with rfl | rfl
  · cases hm
    refine ⟨sampleMembers, fun name hn => ?_, Members.listedIn_ofDeclarations _ _⟩
    rw [firstInvalid_iff, hvalid] at hn
    cases hn
  · cases hm

/-- The name stays reserved if the class is given its members by declarations. -/
theorem tellsApart_sample :
    let h := sample.withSample ⟨25⟩
    h.Reachable ∧ h.types.Has ⟨25⟩ ∧ h.TellsApart h h ⟨25⟩ := by
  intro h
  have hr : h.Reachable := reachable_sample.step (step_withSample (by decide) (by decide) rfl)
  have ht : h.types.Has ⟨25⟩ := by decide
  have hfirst : ∀ p, h.FirstAsked h ⟨25⟩ p := fun p => ⟨unasked_of_unshared rfl, .inl rfl⟩
  obtain ⟨-, -, hall, -, hdrafted⟩ := hr.tellsApart_iff ht
  have hres : h.catalog.Reserved ⟨25⟩ := hdrafted fun u hu => drafted_withSample hu
  exact ⟨hr, ht, (hall h h hr (hfirst _) hr (hfirst _)).1.mpr hres⟩

/-- A public method named like constructors. -/
def disguised : Method :=
  ⟨nameOfConstructors, [], none, ⟨true, false, false, false, false⟩, ⟨25⟩⟩

/-- The host after the class has been given this method as it is, and no constructor. -/
def withDisguised : Host :=
  { sample with catalog := { sample.catalog with
      members := sample.catalog.members.insert ⟨25⟩ ⟨[], [disguised], [], []⟩ } }

/-- The method is listed, but its name finds nothing. -/
theorem not_tellsApart_disguised :
    withDisguised.Reachable ∧ withDisguised.types.Has ⟨25⟩ ∧
      (∀ p, withDisguised.FirstAsked withDisguised ⟨25⟩ p) ∧
      nameOfConstructors ∈ withDisguised.methodNames ⟨25⟩ ∧
      withDisguised.methodNamed? ⟨25⟩ nameOfConstructors = none ∧
      ¬ withDisguised.TellsApart withDisguised withDisguised ⟨25⟩ := by
  have hr : withDisguised.Reachable :=
    reachable_sample.step (.attach ⟨25⟩ ⟨[], [disguised], [], []⟩ (by decide) nofun (by decide) rfl)
  have hfirst : ∀ p, withDisguised.FirstAsked withDisguised ⟨25⟩ p :=
    fun p => ⟨unasked_of_unshared rfl, .inl rfl⟩
  have hown : (⟨25⟩ : TypeId) ∈ withDisguised.catalog.types.lineage ⟨25⟩ := by
    show _ ∈ sample.types.lineage ⟨25⟩
    rw [lineage_sample]
    exact List.mem_cons_self
  have hlisted : nameOfConstructors ∈ withDisguised.methodNames ⟨25⟩ := by
    have hm : disguised ∈ withDisguised.catalog.publicMethods ⟨25⟩ := by decide
    rw [(hfirst .methods).mem_methodNames_iff hr.coherent]
    exact Catalog.exists_visibleMethod hown hm
  exact ⟨hr, by decide, hfirst, hlisted, rfl, fun h => h.unlisted hlisted⟩

end Host

end Interop
