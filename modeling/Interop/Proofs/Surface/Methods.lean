import Interop.Proofs.Surface.Names
import Interop.Proofs.Surface.Request

/-!
# Methods by name

A surface collects the methods of a lineage in two passes: of each signature the first method
remains, and what remains is grouped by name. It comes to the same as one pass for each name, in
which the first method of each parameter list remains. Nothing is lost and nothing is there twice.

* `Catalog.methodsAlong`: the public methods of a name that the types of a lineage declare.
* `Catalog.methodsNamed_eq`: the two passes come to one for each name.
* `Catalog.Gathers`: what should be found under a name. `Catalog.gathers_methodsNamed`: it is.
* `Host.Awaits.methods_gathered`: a surface finds and lists what it should. The name of constructors
  is apart: it finds the constructors.
-/

namespace Interop

theorem OverloadSet.ofList?_eq_some_iff {name : String} {candidates : List Callable}
    {o : OverloadSet} :
    ofList? name candidates = some o ↔ o.name = name ∧ o.candidates = candidates := by
  obtain ⟨own, first, others⟩ := o
  cases candidates with
  | nil => simp [ofList?, OverloadSet.candidates]
  | cons c cs =>
    simp only [ofList?, Option.some.injEq, mk.injEq, OverloadSet.candidates, List.cons.injEq,
      eq_comm (b := name), eq_comm (b := c), eq_comm (b := cs)]

theorem OverloadSet.isOverloaded_eq_false_iff {o : OverloadSet} :
    o.isOverloaded = false ↔ o.candidates.length = 1 := by
  simp [isOverloaded, OverloadSet.candidates]

namespace Catalog

variable {c : Catalog} {t u : TypeId} {name : String} {m : Method}

/-! ## One pass for each name -/

/-- The public methods of a name that the types of the lineage declare, in the order of the lineage
and of their declaration. -/
def methodsAlong (c : Catalog) (t : TypeId) (name : String) : List Method :=
  ((c.types.lineage t).flatMap c.publicMethods).filter (·.name = name)

theorem mem_methodsAlong :
    m ∈ c.methodsAlong t name ↔
      (∃ u ∈ c.types.lineage t, m ∈ c.publicMethods u) ∧ m.name = name := by
  simp [methodsAlong, List.mem_filter, List.mem_flatMap]

/-- **Grouping.** Of the methods of one name, the first one of each parameter list remains. -/
theorem filter_visibleMethods (c : Catalog) (t : TypeId) (name : String) :
    (c.visibleMethods t).filter (·.name = name) =
      firstBy Method.parameters (c.methodsAlong t name) := by
  have hname : ∀ a b : Method, a.signature = b.signature →
      decide (a.name = name) = decide (b.name = name) := by
    intro a b heq
    rw [show a.name = b.name from congrArg Prod.fst heq]
  rw [visibleMethods_eq, filter_firstBy hname]
  refine firstBy_congr fun a ha b hb => ?_
  have heq : a.name = b.name := (mem_methodsAlong.mp ha).2.trans (mem_methodsAlong.mp hb).2.symm
  simp [Method.signature, heq]

theorem methodsNamed_eq (c : Catalog) (t : TypeId) (name : String) :
    c.methodsNamed t name =
      OverloadSet.ofList? name
        ((firstBy Method.parameters (c.methodsAlong t name)).map .method) := by
  rw [methodsNamed, filter_visibleMethods]

/-! ## What should be found -/

/-- What should be found under a name. There is nothing if no type of the lineage declares a public
method of this name. Else the candidates are those of the methods along the lineage, in their order,
that are the first ones of their parameter lists. -/
structure Gathers (c : Catalog) (t : TypeId) (name : String) (found : Option OverloadSet) :
    Prop where
  absent : found = none ↔ ∀ u ∈ c.types.lineage t, ∀ m ∈ c.publicMethods u, m.name ≠ name
  named : ∀ o ∈ found, o.name = name
  candidates : ∀ o ∈ found, ∃ ms : List Method, o.candidates = ms.map .method ∧
    KeptFirst Method.parameters (c.methodsAlong t name) ms ∧
    ∀ m, m ∈ ms ↔ IsFirst (fun x => x.parameters = m.parameters) (c.methodsAlong t name) m
  /-- Each method has one candidate of its name and its parameters. -/
  represented : ∀ o ∈ found, ∀ m ∈ c.methodsAlong t name,
    ∃! x, x ∈ o.candidates ∧ x.name = m.name ∧ x.parameters = m.parameters
  distinct : ∀ o ∈ found, o.candidates.Pairwise fun x y => x.parameters ≠ y.parameters
  single : ∀ o ∈ found, (o.isOverloaded = false ↔ o.candidates.length = 1)

/-- Each method along the lineage has one candidate, which is the first one of its parameters. -/
theorem existsUnique_candidate (hm : m ∈ c.methodsAlong t name) :
    ∃! x, x ∈ (firstBy Method.parameters (c.methodsAlong t name)).map Callable.method ∧
      x.name = m.name ∧ x.parameters = m.parameters := by
  obtain ⟨k, hk, hp⟩ : ∃ k ∈ firstBy Method.parameters (c.methodsAlong t name),
      k.parameters = m.parameters := exists_mem_firstBy hm
  have hname := (mem_methodsAlong.mp (mem_of_mem_firstBy hk)).2
  refine ⟨.method k, ⟨List.mem_map_of_mem hk, ?_, hp⟩, ?_⟩
  · exact hname.trans (mem_methodsAlong.mp hm).2.symm
  · rintro x ⟨hx, -, hxp⟩
    obtain ⟨k', hk', rfl⟩ := List.mem_map.mp hx
    have hp' : k'.parameters = k.parameters := Eq.trans hxp hp.symm
    have hfirst := mem_firstBy_iff.mp hk'
    rw [hp'] at hfirst
    rw [hfirst.unique (mem_firstBy_iff.mp hk)]

/-- **Overload sets.** The overload set of a name is what it should be. -/
theorem gathers_methodsNamed (c : Catalog) (t : TypeId) (name : String) :
    c.Gathers t name (c.methodsNamed t name) := by
  have hcandidates : ∀ o ∈ c.methodsNamed t name, o.name = name ∧
      o.candidates = (firstBy Method.parameters (c.methodsAlong t name)).map .method := by
    intro o ho
    rw [methodsNamed_eq] at ho
    exact OverloadSet.ofList?_eq_some_iff.mp ho
  constructor
  case absent =>
    rw [methodsNamed_eq, OverloadSet.ofList?_eq_none_iff, List.map_eq_nil_iff, firstBy_eq_nil_iff,
      List.eq_nil_iff_forall_not_mem]
    simp only [mem_methodsAlong, not_and, forall_exists_index, and_imp]
    exact ⟨fun h u hu m hm => h m u hu hm, fun h m u hu hm => h u hu m hm⟩
  case named => exact fun o ho => (hcandidates o ho).1
  case candidates =>
    exact fun o ho => ⟨_, (hcandidates o ho).2, keptFirst_firstBy _ _, fun m => mem_firstBy_iff⟩
  case represented =>
    intro o ho m hm
    rw [(hcandidates o ho).2]
    exact existsUnique_candidate hm
  case distinct =>
    intro o ho
    rw [(hcandidates o ho).2, List.pairwise_map]
    exact pairwise_firstBy Method.parameters _
  case single => exact fun o _ => OverloadSet.isOverloaded_eq_false_iff

/-- Constructors are not what should be found as methods. -/
theorem Reserved.gathers_constructors_iff (hres : c.Reserved t) :
    c.Gathers t nameOfConstructors (c.constructors? t) ↔ c.visibleConstructors t = [] := by
  have hnone : c.constructors? t = none ↔ c.visibleConstructors t = [] := by
    rw [constructors?, OverloadSet.ofList?_eq_none_iff, List.map_eq_nil_iff]
  refine ⟨fun h => hnone.mp (h.absent.mpr hres), fun h => ?_⟩
  have hmethods : c.methodsNamed t nameOfConstructors = none :=
    methodsNamed_eq_none_iff.mpr (reserved_iff_visible.mp hres)
  rw [hnone.mpr h, ← hmethods]
  exact c.gathers_methodsNamed t nameOfConstructors

end Catalog

namespace Host

variable {h : Host} {s : SurfaceId} {t : TypeId}

/-- **Methods by name.** A surface that has not been asked for methods finds under each name what it
should, and it lists the names that have public methods in the lineage, by increasing bytes. Only
under the name of constructors it finds the constructors, which is what it should just if there are
none, as long as no method has this name. -/
theorem Awaits.methods_gathered (ha : h.Awaits s t .methods) :
    (∀ name ≠ nameOfConstructors, h.catalog.Gathers t name (h.method? s name).1) ∧
      (h.methods s).1.names.Pairwise (fun a b => a.toUTF8.data.toList < b.toUTF8.data.toList) ∧
      (∀ name, name ∈ (h.methods s).1.names ↔
        ∃ u ∈ h.types.lineage t, ∃ m ∈ h.catalog.publicMethods u, m.name = name) ∧
      (h.Awaits s t .constructors →
        (h.method? s nameOfConstructors).1 = h.catalog.constructors? t ∧
          (h.catalog.Reserved t →
            (h.catalog.Gathers t nameOfConstructors (h.method? s nameOfConstructors).1 ↔
              h.catalog.visibleConstructors t = []))) := by
  have htable : (h.methods s).1 = h.catalog.methodTable t := ha.ask_fst
  refine ⟨fun name hn => ?_, ?_, fun name => ?_, fun hc => ?_⟩
  · have hfound : (h.method? s name).1 = h.catalog.methodsNamed t name := by
      rw [method?_of_ne hn, ha.ask_fst]
      exact Catalog.get?_methodTable
    rw [hfound]
    exact h.catalog.gathers_methodsNamed t name
  · rw [htable]
    exact NameTable.pairwise_names_build
  · rw [htable, Catalog.mem_names_methodTable]
    constructor
    · rintro ⟨m, hm, rfl⟩
      obtain ⟨u, hu, hm⟩ := Catalog.mem_flatMap_of_visibleMethods hm
      exact ⟨u, hu, m, hm, rfl⟩
    · rintro ⟨u, hu, m, hm, rfl⟩
      exact Catalog.exists_visibleMethod hu hm
  · have hfound : (h.method? s nameOfConstructors).1 = h.catalog.constructors? t := by
      rw [method?_constructors, hc.ask_fst]
      rfl
    rw [hfound]
    exact ⟨rfl, fun hres => hres.gathers_constructors_iff⟩

/-- A surface of the last class finds the method that both interfaces declare. -/
theorem methods_gathered_overridden :
    let h := (overridden.newSurface ⟨28⟩).2
    let s := (overridden.newSurface ⟨28⟩).1
    h.Reachable ∧ h.Awaits s ⟨28⟩ .methods ∧ "text" ≠ nameOfConstructors ∧
      h.catalog.Gathers ⟨28⟩ "text" (h.method? s "text").1 ∧ "text" ∈ (h.methods s).1.names := by
  intro h s
  have ha : h.Awaits s ⟨28⟩ .methods := overridden.awaits_newSurface ⟨28⟩ .methods
  have hn : "text" ≠ nameOfConstructors := by decide
  obtain ⟨hgathers, -, hnames, -⟩ := ha.methods_gathered
  have hlineage : (⟨25⟩ : TypeId) ∈ h.types.lineage ⟨28⟩ := by
    show _ ∈ overridden.types.lineage ⟨28⟩
    rw [lineage_overridden]
    decide
  have hmethods : h.catalog.publicMethods ⟨25⟩ =
      [⟨"text", [], none, ⟨true, false, false, false, false⟩, ⟨25⟩⟩] :=
    Catalog.publicMethods_declaredTwice diamond.types ⟨25⟩ ⟨26⟩ ⟨25⟩
  refine ⟨reachable_overridden.step (.newSurface ⟨28⟩ (by decide)), ha, hn, hgathers "text" hn,
    (hnames "text").mpr ⟨⟨25⟩, hlineage, _, hmethods ▸ List.mem_cons_self, rfl⟩⟩

/-- A class has a public constructor, and no method in its lineage is named like constructors. What
a surface finds under that name is not what it should find as methods. -/
theorem constructors_not_gathered :
    let h := ((sample.withSample ⟨25⟩).newSurface ⟨25⟩).2
    let s := ((sample.withSample ⟨25⟩).newSurface ⟨25⟩).1
    h.Reachable ∧ (∀ p, h.Awaits s ⟨25⟩ p) ∧
      (∀ u ∈ h.types.lineage ⟨25⟩, ∀ m ∈ h.catalog.publicMethods u, m.name ≠ nameOfConstructors) ∧
      (h.method? s nameOfConstructors).1 = some ⟨nameOfConstructors,
        .constructor ⟨[], ⟨true, false, false, false, false⟩, ⟨25⟩⟩, []⟩ ∧
      ¬ h.catalog.Gathers ⟨25⟩ nameOfConstructors (h.method? s nameOfConstructors).1 := by
  intro h s
  have ha : ∀ p, h.Awaits s ⟨25⟩ p := (sample.withSample ⟨25⟩).awaits_newSurface ⟨25⟩
  have hr : (sample.withSample ⟨25⟩).Reachable :=
    reachable_sample.step (step_withSample (by decide) (by decide) rfl)
  have hres : h.catalog.Reserved ⟨25⟩ :=
    Catalog.reserved_of_drafted fun u hu => drafted_withSample hu
  have hfound : (h.method? s nameOfConstructors).1 = some ⟨nameOfConstructors,
      .constructor ⟨[], ⟨true, false, false, false, false⟩, ⟨25⟩⟩, []⟩ := by
    rw [method?_constructors, (ha .constructors).ask_fst]
    rfl
  refine ⟨hr.step (.newSurface ⟨25⟩ (by decide)), ha, hres, hfound, fun hgathers => ?_⟩
  have hnone := hgathers.absent.mpr hres
  rw [hfound] at hnone
  cases hnone

end Host

end Interop
