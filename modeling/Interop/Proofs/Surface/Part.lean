import Interop.Host.Basic

/-!
# Parts of surfaces

The four parts of a surface are kept, projected and asked for in the same way. Here they are one
family over `Part`, so that a fact about all of them is stated once.

* `Catalog.project`: what a part should hold. `Surface.part?`: what it does hold.
* `Surface.KeptIn`: a later state of a surface has the parts that were there.
* `Host.ask`: asks a surface for a part.
* `Host.ask_of_kept`: a part that is there is answered and nothing changes.
* `Host.ask_of_new`: a part that is not there is projected and kept, and no other part changes.
* `Host.part?_ask`: either way the part is there then, with what was answered.
-/

namespace Interop

/-- What a part of a surface holds. -/
def Part.Content : Part → Type
  | .fields => NameTable Field
  | .methods => NameTable OverloadSet
  | .constructors => Option OverloadSet
  | .nested => NameTable TypeId

/-- What a part of a type shows with the members that there are. -/
def Catalog.project (c : Catalog) (t : TypeId) : (p : Part) → p.Content
  | .fields => c.fieldTable t
  | .methods => c.methodTable t
  | .constructors => c.constructors? t
  | .nested => c.nestedTable t

namespace Surface

variable {p q : Part} (surface : Surface)

/-- The content of a part, once it has been asked for. -/
def part? : (p : Part) → Option p.Content
  | .fields => surface.fields
  | .methods => surface.methods
  | .constructors => surface.constructors
  | .nested => surface.nested

/-- The surface with one part filled in. -/
def withPart : (p : Part) → p.Content → Surface
  | .fields, table => { surface with fields := some table }
  | .methods, table => { surface with methods := some table }
  | .constructors, found => { surface with constructors := some found }
  | .nested, table => { surface with nested := some table }

@[simp] theorem type_withPart (x : p.Content) : (surface.withPart p x).type = surface.type := by
  cases p <;> rfl

@[simp] theorem part?_withPart_self (x : p.Content) : (surface.withPart p x).part? p = some x := by
  cases p <;> rfl

theorem part?_withPart_of_ne (h : q ≠ p) (x : p.Content) :
    (surface.withPart p x).part? q = surface.part? q := by
  cases p <;> cases q <;> simp only [ne_eq, not_true_eq_false, reduceCtorEq] at h <;> rfl

@[simp] theorem part?_ofType (t : TypeId) (p : Part) : (ofType t).part? p = none := by
  cases p <;> rfl

/-- `later` is of the same type and still has the parts of `surface`. -/
structure KeptIn (surface later : Surface) : Prop where
  type : later.type = surface.type
  parts : ∀ (p : Part) (x : p.Content), surface.part? p = some x → later.part? p = some x

theorem KeptIn.refl : surface.KeptIn surface := ⟨rfl, fun _ _ hx => hx⟩

theorem KeptIn.trans {surface later last : Surface} (h : surface.KeptIn later)
    (h' : later.KeptIn last) : surface.KeptIn last where
  type := h'.type.trans h.type
  parts p x hx := h'.parts p x (h.parts p x hx)

theorem keptIn_withPart (hp : surface.part? p = none) (x : p.Content) :
    surface.KeptIn (surface.withPart p x) where
  type := surface.type_withPart x
  parts q y hy := by
    have hne : q ≠ p := by
      rintro rfl
      rw [hp] at hy
      cases hy
    rw [surface.part?_withPart_of_ne hne]
    exact hy

end Surface

namespace Host

variable {h : Host} {s : SurfaceId} {surface : Surface} {p : Part}

/-- Asks a surface for a part. -/
def ask (h : Host) (s : SurfaceId) : (p : Part) → p.Content × Host
  | .fields => h.fields s
  | .methods => h.methods s
  | .constructors => h.constructors s
  | .nested => h.nested s

/-- Nothing changes when a surface is asked that is not there. -/
theorem ask_of_none (hs : h.surface? s = none) : (h.ask s p).2 = h := by
  cases p
  all_goals simp only [ask, fields, methods, constructors, nested, hs]

/-- A part that is there is answered as it is. -/
theorem ask_of_kept {x : p.Content} (hs : h.surface? s = some surface)
    (hx : surface.part? p = some x) : h.ask s p = (x, h) := by
  cases p
  all_goals
    rw [Surface.part?] at hx
    simp only [ask, fields, methods, constructors, nested, hs, hx]
    rfl

/-- `h'` is `h` with the part `p` of a surface projected and kept. Projecting fields also relaxes
the access to them, and each projection is reported. -/
structure Projects (h : Host) (s : SurfaceId) (surface : Surface) (p : Part) (h' : Host) :
    Prop where
  catalog : h'.catalog = h.catalog
  surfaces : h'.surfaces = h.surfaces.setIfInBounds s.index
    (surface.withPart p (h.catalog.project surface.type p))
  shared : h'.shared = h.shared
  distances : h'.distances = h.distances
  strategies : h'.strategies = h.strategies

/-- **Projection.** A part that is not there is answered as the members say, and is kept. -/
theorem ask_of_new (hs : h.surface? s = some surface) (hp : surface.part? p = none) :
    (h.ask s p).1 = h.catalog.project surface.type p ∧ h.Projects s surface p (h.ask s p).2 := by
  cases p
  all_goals
    rw [Surface.part?] at hp
    simp only [ask, fields, methods, constructors, nested, hs, hp]
    exact ⟨rfl, rfl, rfl, rfl, rfl, rfl⟩

theorem catalog_ask (h : Host) (s : SurfaceId) (p : Part) :
    (h.ask s p).2.catalog = h.catalog := by
  cases hs : h.surface? s with
  | none => rw [ask_of_none hs]
  | some surface =>
    cases hp : surface.part? p with
    | none => exact (ask_of_new hs hp).2.catalog
    | some x => rw [ask_of_kept hs hp]

namespace Projects

variable {h' : Host}

theorem surface?_self (hp : h.Projects s surface p h') (hs : h.surface? s = some surface) :
    h'.surface? s = some (surface.withPart p (h.catalog.project surface.type p)) := by
  obtain ⟨hlt, -⟩ := Array.getElem?_eq_some_iff.mp hs
  rw [surface?, hp.surfaces, Array.getElem?_setIfInBounds_self_of_lt hlt]

theorem surface?_of_ne (hp : h.Projects s surface p h') {u : SurfaceId} (hu : u ≠ s) :
    h'.surface? u = h.surface? u := by
  have hne : s.index ≠ u.index := fun heq => hu (by cases u; cases s; cases heq; rfl)
  rw [surface?, hp.surfaces, Array.getElem?_setIfInBounds_ne hne]
  rfl

end Projects

/-- The content of a part of a surface, once it has been asked for. -/
def part? (h : Host) (s : SurfaceId) (p : Part) : Option p.Content :=
  (h.surface? s).bind (·.part? p)

theorem part?_eq_some_iff {x : p.Content} :
    h.part? s p = some x ↔ ∃ surface, h.surface? s = some surface ∧ surface.part? p = some x :=
  Option.bind_eq_some_iff

/-- A part that has been asked for is there. -/
theorem part?_ask (hs : h.surface? s = some surface) (p : Part) :
    (h.ask s p).2.part? s p = some (h.ask s p).1 := by
  cases hp : surface.part? p with
  | none =>
    obtain ⟨hanswer, hpr⟩ := ask_of_new hs hp
    rw [hanswer, part?_eq_some_iff]
    exact ⟨_, hpr.surface?_self hs, surface.part?_withPart_self _⟩
  | some x =>
    rw [ask_of_kept hs hp]
    exact part?_eq_some_iff.mpr ⟨surface, hs, hp⟩

end Host

end Interop
