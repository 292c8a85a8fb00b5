import Interop.Proofs.Host.Access
import Interop.Proofs.Surface.NameTable
import Interop.Proofs.Surface.Request

/-!
# Fields by name

A surface finds the first public field of a name along the lineage, unless it is sealed. A sealed
field is left out with a warning, and it still hides what it hides. All other fields are relaxed
when they are first found, so what surfaces find is accessible from then on.

* `Catalog.FirstField`: the first public field of a name along the lineage.
* `Catalog.get?_fieldTable_eq_some_iff`: what a table of fields finds.
* `Host.ShowsFields`: what a surface should find and report when it is first asked for fields.
* `Host.GuardsFields`: what should hold of the access to all fields.
* `Host.Reachable.fields_guarded`: in every run, both do.
-/

namespace Interop

/-! ## First fields -/

namespace Catalog

variable {c : Catalog} {t : TypeId} {name : String} {f g : Field}

/-- `f` is the first public field of the name in the order of the lineage and of declaration. -/
def FirstField (c : Catalog) (t : TypeId) (name : String) (f : Field) : Prop :=
  IsFirst (fun x => x.name = name) ((c.types.lineage t).flatMap c.publicFields) f

theorem mem_visibleFields_iff : f ∈ c.visibleFields t ↔ c.FirstField t f.name f := by
  rw [visibleFields_eq, mem_firstBy_iff]
  rfl

theorem FirstField.name_eq (hf : c.FirstField t name f) : f.name = name := hf.prop

theorem FirstField.visible (hf : c.FirstField t name f) : f ∈ c.visibleFields t := by
  obtain rfl := hf.name_eq
  exact mem_visibleFields_iff.mpr hf

theorem eq_of_visible (hf : f ∈ c.visibleFields t) (hg : g ∈ c.visibleFields t)
    (hn : f.name = g.name) : f = g :=
  eq_of_mem_firstBy hf hg hn

theorem find?_visibleFields :
    (c.visibleFields t).find? (fun x => x.name = name && x.access ≠ .sealed) = some f ↔
      f ∈ c.visibleFields t ∧ f.name = name ∧ f.access ≠ .sealed := by
  simp only [← Bool.decide_and, find?_eq_some_iff_isFirst]
  constructor
  · exact fun hf => ⟨hf.mem, hf.prop⟩
  · rintro ⟨hmem, hp⟩
    obtain ⟨g, hg⟩ :=
      exists_isFirst (P := fun x : Field => x.name = name ∧ x.access ≠ .sealed) hmem hp
    exact eq_of_visible hg.mem hmem (hg.prop.1.trans hp.1.symm) ▸ hg

/-- **Tables of fields.** The first field of a name is found, unless it is sealed. -/
theorem get?_fieldTable_eq_some_iff :
    (c.fieldTable t).get? name = some f ↔ c.FirstField t name f ∧ f.access ≠ .sealed := by
  rw [fieldTable, NameTable.get?_build_of_mem, find?_visibleFields]
  · constructor
    · rintro ⟨hmem, rfl, hs⟩
      exact ⟨mem_visibleFields_iff.mp hmem, hs⟩
    · rintro ⟨hf, hs⟩
      exact ⟨hf.visible, hf.name_eq, hs⟩
  · intro g hg
    obtain ⟨hmem, rfl, -⟩ := find?_visibleFields.mp hg
    exact List.mem_map_of_mem hmem

/-- What a table of fields holds is visible and not sealed. -/
theorem visible_of_mem_fieldTable {entry : String × Field}
    (he : entry ∈ (c.fieldTable t).entries) :
    entry.2 ∈ c.visibleFields t ∧ entry.2.access ≠ .sealed := by
  obtain ⟨hmem, -, hs⟩ := find?_visibleFields.mp (NameTable.value?_of_mem_build he)
  exact ⟨hmem, hs⟩

/-! ## Fields that are left out -/

theorem mem_omittedFields_iff :
    f ∈ c.omittedFields t ↔ c.FirstField t f.name f ∧ f.access = .sealed := by
  rw [omittedFields, List.mem_filter, mem_visibleFields_iff, decide_eq_true_eq]

/-- At most one field of a name is left out. -/
theorem filter_omittedFields (hf : c.FirstField t name f) (hs : f.access = .sealed) :
    (c.omittedFields t).filter (·.name = name) = [f] := by
  obtain rfl := hf.name_eq
  exact filter_key_eq_singleton ((pairwise_firstBy Field.name _).filter _)
    (mem_omittedFields_iff.mpr ⟨hf, hs⟩)

theorem filter_omittedFields_eq_nil (hn : ∀ f, c.FirstField t name f → f.access ≠ .sealed) :
    (c.omittedFields t).filter (·.name = name) = [] := by
  refine List.filter_eq_nil_iff.mpr fun f hf hname => ?_
  obtain ⟨hfirst, hs⟩ := mem_omittedFields_iff.mp hf
  obtain rfl : f.name = name := by simpa using hname
  exact hn f hfirst hs

end Catalog

/-! ## What surfaces show -/

/-- Whether a notice says that a field of the name is left out. -/
def Notice.omits (name : String) : Notice → Bool
  | fieldOmitted _ field _ => field = name
  | _ => false

namespace Host

variable {h h' : Host} {s : SurfaceId} {t : TypeId} {name : String} {f : Field}

/-- What should be found, and reported, when a surface of the type `t` is first asked for fields. -/
structure ShowsFields (h : Host) (s : SurfaceId) (t : TypeId) : Prop where
  /-- The first field of a name is found, unless it is sealed. -/
  found : ∀ name f, (h.field? s name).1 = some f ↔
    h.catalog.FirstField t name f ∧ f.access ≠ .sealed
  /-- If it is sealed, no other field of the name is found. -/
  hidden : ∀ name f, h.catalog.FirstField t name f → f.access = .sealed →
    (h.field? s name).1 = none
  /-- The fields that are left out are reported, and then the projection. -/
  reported : ∀ name, (h.field? s name).2.log =
    h.log ++ h.omissions t .fields ++ [.projected t .fields (h.catalog.fieldTable t).size]
  warnings : ∀ n ∈ h.omissions t .fields, n.level = .warn
  /-- There is one warning for each name whose first field is sealed. -/
  warned : ∀ name f, h.catalog.FirstField t name f → f.access = .sealed →
    (h.omissions t .fields).filter (Notice.omits name) = [.fieldOmitted t name (h.refusal f)]
  /-- There is none for other names. -/
  unwarned : ∀ name, (∀ f, h.catalog.FirstField t name f → f.access ≠ .sealed) →
    (h.omissions t .fields).filter (Notice.omits name) = []
  /-- Later the same is found, and nothing is reported. -/
  later : ∀ name h', (h.field? s name).2.LeadsTo h' →
    ∀ other, h'.field? s other = ((h.field? s other).1, h')

/-- What should hold of the access to fields. -/
structure GuardsFields (h : Host) : Prop where
  /-- A sealed field is never accessible, and a request to relax it is refused. -/
  sealed : ∀ f, h.Declares f → f.access = .sealed →
    h.isAccessible f = false ∧ h.relax f = .error (h.refusal f)
  unchecked : ∀ f, f.access = .unchecked → h.isAccessible f = true
  /-- What is accessible stays accessible. -/
  kept : ∀ f h', h.LeadsTo h' → h.isAccessible f = true → h'.isAccessible f = true
  /-- What a surface finds is accessible, then and later. -/
  found : ∀ s name f, (h.field? s name).1 = some f →
    ∀ h', (h.field? s name).2.LeadsTo h' → h'.isAccessible f = true

/-! ### One surface -/

/-- What is reported about a name are the fields of this name that are left out. -/
theorem filter_omits (h : Host) (t : TypeId) (name : String) :
    (h.omissions t .fields).filter (Notice.omits name) =
      ((h.catalog.omittedFields t).filter (·.name = name)).map fun f =>
        .fieldOmitted t f.name (h.refusal f) := by
  rw [omissions, List.filter_map]
  rfl

/-- **First requests.** A surface that has not been asked for fields shows what it should. -/
theorem Awaits.showsFields (ha : h.Awaits s t .fields) : h.ShowsFields s t := by
  have hfound : ∀ name, (h.field? s name).1 = (h.catalog.fieldTable t).get? name := by
    intro name
    rw [field?_eq, ha.ask_fst]
    rfl
  constructor
  case found =>
    intro name f
    rw [hfound]
    exact Catalog.get?_fieldTable_eq_some_iff
  case hidden =>
    intro name f hf hs
    rw [hfound, Option.eq_none_iff_forall_ne_some]
    intro g hg
    obtain ⟨hfirst, hopen⟩ := Catalog.get?_fieldTable_eq_some_iff.mp hg
    rw [hfirst.unique hf] at hopen
    exact hopen hs
  case reported => exact fun _ => ha.log_ask
  case warnings =>
    intro n hn
    obtain ⟨f, -, rfl⟩ := List.mem_map.mp hn
    rfl
  case warned =>
    intro name f hf hs
    rw [filter_omits, Catalog.filter_omittedFields hf hs, List.map_singleton, hf.name_eq]
  case unwarned =>
    intro name hn
    rw [filter_omits, Catalog.filter_omittedFields_eq_nil hn, List.map_nil]
  case later =>
    intro name h' hl other
    rw [field?_eq h', ha.ask_later hl]
    rfl

/-! ### All surfaces -/

/-- All fields that surfaces hold are accessible. -/
def Shown (h : Host) : Prop :=
  ∀ s table, h.part? s .fields = some table → ∀ entry ∈ table.entries,
    h.isAccessible entry.2 = true

/-- The fields of a new part are relaxed when it is projected. -/
theorem isAccessible_projected {surface : Surface} (hs : h.surface? s = some surface)
    (hp : surface.part? .fields = none) {entry : String × Field}
    (he : entry ∈ (h.catalog.fieldTable surface.type).entries) :
    (h.ask s .fields).2.isAccessible entry.2 = true := by
  obtain ⟨hvisible, hopen⟩ := Catalog.visible_of_mem_fieldTable he
  rw [isAccessible_iff, relaxed_ask_of_new hs hp]
  cases hf : entry.2.access with
  | unchecked => exact .inl rfl
  | relaxable =>
    refine .inr (List.mem_append_left _ (List.mem_map_of_mem ?_))
    exact List.mem_filter.mpr ⟨hvisible, by simpa using hf⟩
  | sealed => exact absurd hf hopen

theorem Step.shown (st : Step h h') (hs : h.Shown) : h'.Shown := by
  intro s table htable entry he
  obtain ⟨surface, hsurface, hpart⟩ := part?_eq_some_iff.mp htable
  rcases st.effect.part_origin hsurface hpart with ⟨before, hb, hpart⟩ | ⟨rfl, before, hb, hnone⟩
  · exact st.isAccessible (hs s table (part?_eq_some_iff.mpr ⟨before, hb, hpart⟩) entry he)
  · have hanswer := part?_ask hb .fields
    rw [htable, (ask_of_new hb hnone).1] at hanswer
    cases hanswer
    exact isAccessible_projected hb hnone he

theorem Reachable.shown (hr : h.Reachable) : h.Shown := by
  induction hr with
  | initial => nofun
  | step _ st ih => exact st.shown ih

/-- What a surface finds is accessible. -/
theorem Reachable.isAccessible_of_field? (hr : h.Reachable) (hf : (h.field? s name).1 = some f) :
    (h.field? s name).2.isAccessible f = true := by
  have hr' : (h.ask s .fields).2.Reachable := hr.step (h.step_ask s .fields)
  rw [field?_eq] at hf ⊢
  have he := NameTable.mem_of_get?_eq_some hf
  cases hs : h.surface? s with
  | none =>
    have hempty : (h.ask s .fields).1 = .empty := by
      simp only [ask, fields, hs]
      rfl
    rw [hempty] at he
    cases he
  | some surface => exact hr'.shown s _ (part?_ask hs .fields) _ he

theorem Reachable.guardsFields (hr : h.Reachable) : h.GuardsFields where
  sealed _ hf hs := ⟨hr.guarded.isAccessible_of_sealed hf hs, relax_of_sealed hs⟩
  unchecked _ hu := isAccessible_iff.mpr (.inl hu)
  kept _ _ hl ha := hl.isAccessible ha
  found _ _ _ hf _ hl := hl.isAccessible (hr.isAccessible_of_field? hf)

/-- **Fields by name.** In every run, a surface that is asked for fields for the first time finds
the first public field of each name that is not sealed, and warns once of each one that is. What
surfaces find is accessible, sealed fields never are, unchecked fields always are, and what is
accessible stays so. -/
theorem Reachable.fields_guarded (hr : h.Reachable) :
    (∀ s t, h.Awaits s t .fields → h.ShowsFields s t) ∧ h.GuardsFields :=
  ⟨fun _ _ ha => ha.showsFields, hr.guardsFields⟩

/-! ## A sealed field that hides another one -/

def sizeDeclaration (access : Access) : Declaration :=
  .field "size" Builtin.object ⟨true, false, false, false, false⟩ access

def nameDeclaration : Declaration :=
  .field "name" Builtin.object ⟨true, false, false, false, false⟩ .relaxable

/-- A new host with a class and a subclass. -/
def boxes : Host :=
  let (box, h) := initial.declareClass "Box" none []
  (h.declareClass "Safe" box []).2

/-- The class has a field without checks. The subclass has a sealed one of the same name, and another
one. -/
def boxMembers : TypeMap Members :=
  (TypeMap.empty.insert ⟨25⟩ (.ofDeclarations ⟨25⟩ [sizeDeclaration .unchecked])).insert ⟨26⟩
    (.ofDeclarations ⟨26⟩ [sizeDeclaration .sealed, nameDeclaration])

/-- The host after the fields have been declared. -/
def safe : Host := { boxes with catalog := ⟨boxes.types, boxMembers⟩ }

theorem reachable_safe : safe.Reachable := by
  have box := Reachable.step .initial (.declareClass "Box" none [] nofun nofun)
  have boxes := box.step (.declareClass "Safe" (some ⟨25⟩) [] (by decide) nofun)
  have first := boxes.step (step_withDeclared (t := ⟨25⟩) (by decide)
    (show ∀ d ∈ [sizeDeclaration .unchecked], _ by decide) rfl rfl)
  exact first.step (step_withDeclared (t := ⟨26⟩) (by decide)
    (show ∀ d ∈ [sizeDeclaration .sealed, nameDeclaration], _ by decide) rfl rfl)

def sizeField (declaring : TypeId) (access : Access) : Field :=
  ⟨"size", Builtin.object, ⟨true, false, false, false, false⟩, declaring, access, 0⟩

def nameField : Field :=
  ⟨"name", Builtin.object, ⟨true, false, false, false, false⟩, ⟨26⟩, .relaxable, 1⟩

/-- The public fields of the subclass and of the class. -/
theorem fields_safe : (safe.types.lineage ⟨26⟩).flatMap safe.catalog.publicFields =
    [sizeField ⟨26⟩ .sealed, nameField, sizeField ⟨25⟩ .unchecked] := by
  have derived : safe.types.Unfolds [⟨26⟩] [⟨26⟩, ⟨25⟩, ⟨0⟩] := .single (.single (.single .nil))
  have hl : safe.types.lineage ⟨26⟩ = [⟨26⟩, ⟨25⟩, ⟨0⟩] :=
    reachable_safe.sound.types.lineage_eq (by decide) derived
  rw [hl]
  rfl

/-- A surface of the subclass finds the other field, which is accessible then. It does not find a
field of the name of the sealed one, and it warns of that once. -/
theorem fields_guarded_safe :
    let h := (safe.newSurface ⟨26⟩).2
    let s := (safe.newSurface ⟨26⟩).1
    h.Reachable ∧ h.Awaits s ⟨26⟩ .fields ∧ (h.field? s "size").1 = none ∧
      (h.field? s "name").1 = some nameField ∧ h.isAccessible nameField = false ∧
      (h.field? s "name").2.isAccessible nameField = true ∧
      (h.omissions ⟨26⟩ .fields).filter (Notice.omits "size") =
        [.fieldOmitted ⟨26⟩ "size" (.sealedField "Safe" "size")] := by
  intro h s
  have hr : h.Reachable := reachable_safe.step (.newSurface ⟨26⟩ (by decide))
  have ha : h.Awaits s ⟨26⟩ .fields := safe.awaits_newSurface ⟨26⟩ .fields
  have hsize : h.catalog.FirstField ⟨26⟩ "size" (sizeField ⟨26⟩ .sealed) :=
    ⟨[], _, fields_safe, rfl, nofun⟩
  have hname : h.catalog.FirstField ⟨26⟩ "name" nameField :=
    ⟨[sizeField ⟨26⟩ .sealed], _, fields_safe, rfl, by decide⟩
  obtain ⟨hshows, hguards⟩ := hr.fields_guarded
  have hfound : (h.field? s "name").1 = some nameField :=
    ((hshows s ⟨26⟩ ha).found "name" nameField).mpr ⟨hname, by decide⟩
  exact ⟨hr, ha, (hshows s ⟨26⟩ ha).hidden "size" _ hsize rfl, hfound, by decide,
    hguards.found s "name" nameField hfound _ .refl, (hshows s ⟨26⟩ ha).warned "size" _ hsize rfl⟩

end Host

end Interop
