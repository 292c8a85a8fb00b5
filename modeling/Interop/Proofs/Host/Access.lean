import Interop.Proofs.Members.Draft

/-!
# Access to fields in a run

A host keeps the keys of the fields that it has relaxed. It only ever adds to them, and all of them
are those of fields that may be relaxed. A key tells a field from all others, so a sealed field is
never accessible.

* `Host.Placed`: a field stands where its key says.
* `Host.Step.members_origin`, `Host.Step.relaxed`: what operations do to fields and to their keys.
* `Host.Guarded`: what every run keeps (`Reachable.guarded`).
* `Host.Reachable.isAccessible_of_sealed`, `Host.LeadsTo.isAccessible`: sealed fields stay closed,
  and accessible ones stay open.
-/

namespace Interop.Host

variable {h h' : Host} {t : TypeId} {s : SurfaceId} {p : Part} {f g : Field} {m : Members}

/-! ## Declared fields -/

/-- The type that declares the field has it at the position that the field names. -/
def Placed (h : Host) (f : Field) : Prop :=
  ∃ m, h.catalog.members.get? f.declaring = some m ∧ m.fields[f.slot]? = some f

/-- **Keys.** There is one field at a place. -/
theorem Placed.eq_of_key (hf : h.Placed f) (hg : h.Placed g) (hk : f.key = g.key) : f = g := by
  obtain ⟨m, hm, hat⟩ := hf
  obtain ⟨m', hm', hat'⟩ := hg
  obtain ⟨hdeclaring, hslot⟩ := Prod.mk.inj hk
  rw [hdeclaring] at hm
  obtain rfl : m = m' := Option.some.inj (hm.symm.trans hm')
  rw [hslot] at hat
  exact Option.some.inj (hat.symm.trans hat')

theorem Placed.extends (hf : h.Placed f) (hk : h.Extends h') : h'.Placed f := by
  obtain ⟨m, hm, hat⟩ := hf
  exact ⟨m, hk.members _ m hm, hat⟩

theorem Declares.extends (hf : h.Declares f) (hk : h.Extends h') : h'.Declares f := by
  obtain ⟨t, m, hm, hmem⟩ := hf
  exact ⟨t, m, hk.members t m hm, hmem⟩

theorem declares_of_visible (hf : f ∈ h.catalog.visibleFields t) : h.Declares f := by
  rw [Catalog.visibleFields_eq] at hf
  obtain ⟨u, -, hf⟩ := List.mem_flatMap.mp (mem_of_mem_firstBy hf)
  obtain ⟨hf, -⟩ := List.mem_filter.mp hf
  cases hm : h.catalog.members.get? u with
  | none => rw [hm] at hf; cases hf
  | some m =>
    rw [hm] at hf
    exact ⟨u, m, hm, hf⟩

/-- Members that a type has after an attachment were there before, or they have been attached. -/
theorem origin_of_attach {own : Members} {u : TypeId} (ok : h.attach u own = .ok h')
    (hm : h'.catalog.members.get? t = some m) :
    h.catalog.members.get? t = some m ∨ (u = t ∧ own = m) := by
  obtain ⟨-, rfl⟩ := of_attach ok
  rw [TypeMap.get?_insert] at hm
  split at hm
  · exact .inr ⟨‹_›, Option.some.inj hm⟩
  · exact .inl hm

/-- **Origins of fields.** Members that an operation gives to a type are those of declarations, or
all of their fields are declared already. -/
theorem Step.members_origin (st : Step h h') (hm : h'.catalog.members.get? t = some m) :
    h.catalog.members.get? t = some m ∨ (∃ ds, m = .ofDeclarations t ds) ∨
      ∀ f ∈ m.fields, h.Declares f := by
  cases st with
  | attach u own ht hf hu ok =>
    rcases origin_of_attach ok hm with hm | ⟨-, rfl⟩
    · exact .inl hm
    · exact .inr (.inr hf)
  | define u ds ht hd ok =>
    rcases origin_of_attach (attach_of_define ok) hm with hm | ⟨rfl, rfl⟩
    · exact .inl hm
    · exact .inr (.inl ⟨ds, rfl⟩)
  | relax f hf ok =>
    unfold Host.relax at ok
    split at ok <;> cases ok <;> exact .inl hm
  | sharedSurface u hu =>
    unfold Host.sharedSurface at hm
    split at hm <;> exact .inl hm
  | fields s => exact .inl ((h.catalog_ask s .fields) ▸ hm)
  | methods s => exact .inl ((h.catalog_ask s .methods) ▸ hm)
  | constructors s => exact .inl ((h.catalog_ask s .constructors) ▸ hm)
  | nested s => exact .inl ((h.catalog_ask s .nested) ▸ hm)
  | adopt rules =>
    unfold Host.adopt at hm
    dsimp only at hm
    split at hm <;> exact .inl hm
  | _ => exact .inl hm

/-- **Places.** Operations keep all declared fields in their places. -/
theorem Step.placed (st : Step h h') (hall : ∀ f, h.Declares f → h.Placed f)
    (hf : h'.Declares f) : h'.Placed f := by
  have hk := st.effect.extends
  obtain ⟨t, m, hm, hmem⟩ := hf
  rcases st.members_origin hm with hold | ⟨ds, rfl⟩ | hdeclared
  · exact (hall f ⟨t, m, hold, hmem⟩).extends hk
  · have hlisted := Members.listedIn_ofDeclarations t ds
    refine ⟨_, ?_, hlisted.getElem?_slot hmem⟩
    rw [hlisted.declaring.1 f hmem]
    exact hm
  · exact (hall f (hdeclared f hmem)).extends hk

/-! ## Relaxed fields -/

/-- The fields that the projection of a part relaxes. -/
def relaxable (h : Host) (t : TypeId) : Part → List Field
  | .fields => (h.catalog.visibleFields t).filter (·.access = .relaxable)
  | _ => []

theorem relaxed_ask_of_new {surface : Surface} (hs : h.surface? s = some surface)
    (hp : surface.part? p = none) :
    (h.ask s p).2.relaxed = (h.relaxable surface.type p).map Field.key ++ h.relaxed := by
  cases p
  all_goals
    rw [Surface.part?] at hp
    simp only [ask, fields, methods, constructors, nested, hs, hp, keep, relaxPublic, relaxable,
      List.map_nil, List.nil_append]

/-- What is added to the keys of the relaxed fields are keys of fields that may be relaxed. -/
def Relaxes (h h' : Host) : Prop :=
  ∃ fs : List Field, (∀ f ∈ fs, h.Declares f ∧ f.access = .relaxable) ∧
    h'.relaxed = fs.map Field.key ++ h.relaxed

theorem Relaxes.of_eq (heq : h'.relaxed = h.relaxed) : h.Relaxes h' := ⟨[], nofun, heq⟩

theorem relaxes_ask (h : Host) (s : SurfaceId) (p : Part) : h.Relaxes (h.ask s p).2 := by
  cases hs : h.surface? s with
  | none => exact .of_eq (by rw [ask_of_none hs])
  | some surface =>
    cases hp : surface.part? p with
    | some x => exact .of_eq (by rw [ask_of_kept hs hp])
    | none =>
      refine ⟨_, fun f hf => ?_, relaxed_ask_of_new hs hp⟩
      cases p with
      | fields =>
        obtain ⟨hf, hr⟩ := List.mem_filter.mp hf
        exact ⟨declares_of_visible hf, by simpa using hr⟩
      | _ => cases hf

theorem relaxes_relax (hf : h.Declares f) (ok : h.relax f = .ok h') : h.Relaxes h' := by
  unfold relax at ok
  split at ok
  · cases ok
    exact .of_eq rfl
  · rename_i hr
    cases ok
    exact ⟨[f], by simpa using ⟨hf, hr⟩, rfl⟩
  · cases ok

/-- **Relaxations.** Operations add keys of fields that may be relaxed, and take none away. -/
theorem Step.relaxes (st : Step h h') : h.Relaxes h' := by
  cases st with
  | attach t m ht hf hm ok =>
    obtain ⟨-, rfl⟩ := of_attach ok
    exact .of_eq rfl
  | define t ds ht hd ok =>
    obtain ⟨-, rfl⟩ := of_attach (attach_of_define ok)
    exact .of_eq rfl
  | relax f hf ok => exact relaxes_relax hf ok
  | sharedSurface t ht =>
    unfold Host.sharedSurface
    split <;> exact .of_eq rfl
  | fields s => exact h.relaxes_ask s .fields
  | methods s => exact h.relaxes_ask s .methods
  | constructors s => exact h.relaxes_ask s .constructors
  | nested s => exact h.relaxes_ask s .nested
  | adopt rules =>
    unfold Host.adopt
    dsimp only
    split <;> exact .of_eq rfl
  | _ => exact .of_eq rfl

/-! ## What every run keeps -/

/-- Declared fields are in their places, and the keys of the relaxed fields are those of fields that
may be relaxed. -/
structure Guarded (h : Host) : Prop where
  placed : ∀ f, h.Declares f → h.Placed f
  relaxed : ∀ k ∈ h.relaxed, ∃ f, h.Declares f ∧ f.access = .relaxable ∧ f.key = k

theorem guarded_initial : initial.Guarded where
  placed f hf := by
    obtain ⟨t, m, hm, -⟩ := hf
    cases hm
  relaxed := nofun

theorem Step.guarded (st : Step h h') (hg : h.Guarded) : h'.Guarded where
  placed f hf := st.placed hg.placed hf
  relaxed k hk := by
    have hext := st.effect.extends
    obtain ⟨fs, hfs, heq⟩ := st.relaxes
    rw [heq, List.mem_append] at hk
    rcases hk with hk | hk
    · obtain ⟨f, hf, rfl⟩ := List.mem_map.mp hk
      exact ⟨f, (hfs f hf).1.extends hext, (hfs f hf).2, rfl⟩
    · obtain ⟨f, hf, hr, rfl⟩ := hg.relaxed k hk
      exact ⟨f, hf.extends hext, hr, rfl⟩

theorem Reachable.guarded (hr : h.Reachable) : h.Guarded := by
  induction hr with
  | initial => exact guarded_initial
  | step _ st ih => exact st.guarded ih

/-! ## Accessible fields -/

theorem isAccessible_iff : h.isAccessible f = true ↔ f.access = .unchecked ∨ f.key ∈ h.relaxed := by
  simp [isAccessible]

/-- **Sealed fields.** They are never accessible: the key of a sealed field is not the key of a
field that may be relaxed. -/
theorem Guarded.isAccessible_of_sealed (hg : h.Guarded) (hf : h.Declares f)
    (hs : f.access = .sealed) : h.isAccessible f = false := by
  rw [← Bool.not_eq_true, isAccessible_iff, hs]
  rintro (hu | hk)
  · cases hu
  · obtain ⟨g, hd, hr, hkey⟩ := hg.relaxed _ hk
    have heq := (hg.placed g hd).eq_of_key (hg.placed f hf) hkey
    rw [heq, hs] at hr
    cases hr

theorem relax_of_sealed (hs : f.access = .sealed) : h.relax f = .error (h.refusal f) := by
  rw [relax, hs]

theorem Step.isAccessible (st : Step h h') (ha : h.isAccessible f = true) :
    h'.isAccessible f = true := by
  rw [isAccessible_iff] at ha ⊢
  obtain ⟨fs, -, heq⟩ := st.relaxes
  rw [heq]
  exact ha.imp_right fun hk => List.mem_append_right _ hk

/-- **Accessible fields.** They stay accessible in every later host. -/
theorem LeadsTo.isAccessible (hl : h.LeadsTo h') (ha : h.isAccessible f = true) :
    h'.isAccessible f = true := by
  induction hl with
  | refl => exact ha
  | tail _ st ih => exact st.isAccessible ih

end Interop.Host
