import Interop.Proofs.Host.Run
import Interop.Proofs.Surface.Part
import Interop.Proofs.Types.Memo
import Mathlib.Logic.Relation

/-!
# What operations change

Each operation changes one thing: the types grow, a type is given its members, a distance is
measured, a surface is opened or shared, or a part of a surface is projected. Whatever the host has
found out before stays as it is.

* `Host.Effect`: the changes. `Host.Step.effect`: every operation has one of them.
* `Host.LeadsTo`: the runs from one host to a later one. `Host.LeadsTo.extends`: what was there is
  still there.
* `Host.Reachable.exists_attached`: what members a type has was attached to it in the run.
* `Host.Coherent`: the memo of distances agrees with the types, members name types of the host, and
  a shared surface is of the type that it is found by. It holds of every reachable host
  (`Reachable.coherent`).
-/

namespace Interop

/-! ## Types that members name -/

/-- A declaration adds what it names, and the type that it belongs to. -/
theorem Members.mem_mentions_add {owner u : TypeId} {m : Members} {d : Declaration}
    (hu : u ∈ (m.add owner d).mentions) : u ∈ m.mentions ∨ u = owner ∨ u ∈ d.mentions := by
  cases d with
  | field name type modifiers access => exact .inl hu
  | method name parameters result modifiers =>
    simp only [Members.add, Members.mentions, Declaration.mentions, List.flatMap_append,
      List.flatMap_singleton, List.mem_append, List.mem_cons] at hu ⊢
    grind
  | constructor parameters modifiers =>
    simp only [Members.add, Members.mentions, Declaration.mentions, List.flatMap_append,
      List.flatMap_singleton, List.mem_append, List.mem_cons] at hu ⊢
    grind
  | nested type modifiers =>
    simp only [Members.add, Members.mentions, Declaration.mentions, List.map_append,
      List.map_singleton, List.mem_append] at hu ⊢
    grind

theorem Members.mem_mentions_foldl {owner u : TypeId} {ds : List Declaration} {m : Members}
    (hu : u ∈ (ds.foldl (Members.add owner) m).mentions) :
    u ∈ m.mentions ∨ u = owner ∨ ∃ d ∈ ds, u ∈ d.mentions := by
  induction ds generalizing m with
  | nil => exact .inl hu
  | cons d ds ih =>
    rcases ih hu with hu | hu | ⟨d', hd', hu⟩
    · rcases mem_mentions_add hu with hu | hu | hu
      · exact .inl hu
      · exact .inr (.inl hu)
      · exact .inr (.inr ⟨d, List.mem_cons_self, hu⟩)
    · exact .inr (.inl hu)
    · exact .inr (.inr ⟨d', List.mem_cons_of_mem _ hd', hu⟩)

theorem Members.mem_mentions_ofDeclarations {owner u : TypeId} {ds : List Declaration}
    (hu : u ∈ (Members.ofDeclarations owner ds).mentions) :
    u = owner ∨ ∃ d ∈ ds, u ∈ d.mentions := by
  rcases mem_mentions_foldl hu with hu | hu
  · cases hu
  · exact hu

namespace Host

variable {h h' h'' : Host}

/-! ## Effects -/

/-- The parts of a host that distances and surfaces read are those of another one. -/
structure SameView (h h' : Host) : Prop where
  catalog : h'.catalog = h.catalog
  surfaces : h'.surfaces = h.surfaces
  shared : h'.shared = h.shared
  distances : h'.distances = h.distances

/-- What one operation changes. -/
inductive Effect (h : Host) : Host → Prop
  | grown (types : TypeGraph) (hg : h.types.GrowsTo types) :
      Effect h { h with catalog := { h.catalog with types } }
  | attached (t : TypeId) (m : Members) (free : h.catalog.members.get? t = none)
      (hm : ∀ u ∈ m.mentions, h.types.Has u) :
      Effect h { h with catalog := { h.catalog with members := h.catalog.members.insert t m } }
  | measured (target : TypeId) (candidate : Option TypeId) (hc : ∀ u ∈ candidate, h.types.Has u) :
      Effect h (h.distance target candidate).2
  | opened (t : TypeId) : Effect h (h.newSurface t).2
  | shared (t : TypeId) (free : h.shared.get? t = none) (ht : h.types.Has t) :
      Effect h { (h.newSurface t).2 with shared := h.shared.insert t (h.newSurface t).1 }
  | projected {surface : Surface} (s : SurfaceId) (p : Part) (hs : h.surface? s = some surface)
      (hp : surface.part? p = none) : Effect h (h.ask s p).2
  | aside {h' : Host} (hv : h.SameView h') : Effect h h'

theorem SameView.refl (h : Host) : h.SameView h := ⟨rfl, rfl, rfl, rfl⟩

/-- Members are attached to a type that has none. -/
theorem of_attach {t : TypeId} {m : Members} (ok : h.attach t m = .ok h') :
    h.catalog.members.get? t = none ∧
      h' = { h with catalog := { h.catalog with members := h.catalog.members.insert t m } } := by
  unfold attach Catalog.attach at ok
  split at ok
  · cases ok
  · rename_i free
    cases ok
    rw [TypeMap.contains, Option.not_isSome_iff_eq_none] at free
    exact ⟨free, rfl⟩

theorem attach_of_define {t : TypeId} {ds : List Declaration} (ok : h.define t ds = .ok h') :
    h.attach t (.ofDeclarations t ds) = .ok h' := by
  unfold define Catalog.define at ok
  split at ok
  · cases ok
  · exact ok

theorem effect_attach {t : TypeId} {m : Members} (hm : ∀ u ∈ m.mentions, h.types.Has u)
    (ok : h.attach t m = .ok h') : h.Effect h' := by
  obtain ⟨free, rfl⟩ := of_attach ok
  exact .attached t m free hm

theorem effect_define {t : TypeId} {ds : List Declaration} (ht : h.types.Has t)
    (hd : ∀ d ∈ ds, ∀ u ∈ d.mentions, h.types.Has u) (ok : h.define t ds = .ok h') :
    h.Effect h' := by
  refine effect_attach (fun u hu => ?_) (attach_of_define ok)
  rcases Members.mem_mentions_ofDeclarations hu with rfl | ⟨d, hmem, hu⟩
  · exact ht
  · exact hd d hmem u hu

theorem effect_relax {f : Field} (ok : h.relax f = .ok h') : h.Effect h' := by
  unfold relax at ok
  split at ok <;> cases ok <;> exact .aside ⟨rfl, rfl, rfl, rfl⟩

theorem effect_sharedSurface {t : TypeId} (ht : h.types.Has t) :
    h.Effect (h.sharedSurface t).2 := by
  unfold sharedSurface
  split
  · exact .aside (.refl h)
  · rename_i free
    exact .shared t free ht

theorem effect_ask (h : Host) (s : SurfaceId) (p : Part) : h.Effect (h.ask s p).2 := by
  cases hs : h.surface? s with
  | none =>
    rw [ask_of_none hs]
    exact .aside (.refl h)
  | some surface =>
    cases hp : surface.part? p with
    | none => exact .projected s p hs hp
    | some x =>
      rw [ask_of_kept hs hp]
      exact .aside (.refl h)

theorem effect_adopt (h : Host) (rules : CallRules) : h.Effect (h.adopt rules).2 := by
  unfold adopt
  dsimp only
  split <;> exact .aside ⟨rfl, rfl, rfl, rfl⟩

/-- **Effects.** Every operation changes one thing. -/
theorem Step.effect (st : Step h h') : h.Effect h' := by
  cases st with
  | declareClass name superclass interfaces hs hi =>
    exact .grown _ (TypeGraph.growsTo_declareClass _ _ _ _)
  | declareInterface name extended he => exact .grown _ (TypeGraph.growsTo_declareInterface _ _ _)
  | arrayType element he => exact .grown _ (TypeGraph.growsTo_arrayType _ _)
  | attach t m ht hf hm ok => exact effect_attach hm ok
  | define t ds ht hd ok => exact effect_define ht hd ok
  | distance target candidate ht hc => exact .measured target candidate hc
  | relax f hf ok => exact effect_relax ok
  | newSurface t ht => exact .opened t
  | sharedSurface t ht => exact effect_sharedSurface ht
  | fields s => exact effect_ask h s .fields
  | methods s => exact effect_ask h s .methods
  | constructors s => exact effect_ask h s .constructors
  | nested s => exact effect_ask h s .nested
  | adopt rules => exact effect_adopt h rules
  | select rules overloads arguments => exact .aside ⟨rfl, rfl, rfl, rfl⟩
  | lookup t ht => exact .aside ⟨rfl, rfl, rfl, rfl⟩
  | score t v ht => exact .aside ⟨rfl, rfl, rfl, rfl⟩
  | convert t v ht => exact .aside ⟨rfl, rfl, rfl, rfl⟩

/-- Asking for a part is an operation. -/
theorem step_ask (h : Host) (s : SurfaceId) (p : Part) : Step h (h.ask s p).2 := by
  cases p with
  | fields => exact .fields s
  | methods => exact .methods s
  | constructors => exact .constructors s
  | nested => exact .nested s

/-! ## What stays -/

/-- Everything that `h` has is still there in `h'`. -/
structure Extends (h h' : Host) : Prop where
  types : h.types.GrowsTo h'.types
  members : ∀ t m, h.catalog.members.get? t = some m → h'.catalog.members.get? t = some m
  surfaces : ∀ s surface, h.surface? s = some surface →
    ∃ later, h'.surface? s = some later ∧ surface.KeptIn later
  shared : ∀ t s, h.shared.get? t = some s → h'.shared.get? t = some s
  distances : ∀ target candidate d, h.distances.distance? target candidate = some d →
    h'.distances.distance? target candidate = some d

theorem Extends.refl (h : Host) : h.Extends h where
  types := .refl _
  members _ _ hm := hm
  surfaces _ surface hs := ⟨surface, hs, .refl surface⟩
  shared _ _ hs := hs
  distances _ _ _ he := he

theorem Extends.trans (hk : h.Extends h') (hk' : h'.Extends h'') : h.Extends h'' where
  types := hk.types.trans hk'.types
  members t m hm := hk'.members t m (hk.members t m hm)
  surfaces s surface hs := by
    obtain ⟨later, hl, hkept⟩ := hk.surfaces s surface hs
    obtain ⟨last, hlast, hkept'⟩ := hk'.surfaces s later hl
    exact ⟨last, hlast, hkept.trans hkept'⟩
  shared t s hs := hk'.shared t s (hk.shared t s hs)
  distances target candidate d he := hk'.distances _ _ _ (hk.distances target candidate d he)

/-- An operation on surfaces, or on parts of the host that are not looked at here. -/
theorem Extends.of_surfaces (hc : h'.catalog = h.catalog) (hsh : h'.shared = h.shared)
    (hd : h'.distances = h.distances) (hs : ∀ s surface, h.surface? s = some surface →
      ∃ later, h'.surface? s = some later ∧ surface.KeptIn later) : h.Extends h' where
  types := by rw [Host.types, Host.types, hc]; exact .refl _
  members t m hm := by rw [hc]; exact hm
  surfaces := hs
  shared t s hs := by rw [hsh]; exact hs
  distances target candidate d he := by rw [hd]; exact he

theorem SameView.extends (hv : h.SameView h') : h.Extends h' := by
  refine .of_surfaces hv.catalog hv.shared hv.distances fun s surface hs => ?_
  exact ⟨surface, by rw [surface?, hv.surfaces]; exact hs, .refl surface⟩

theorem surface?_newSurface (h : Host) (t : TypeId) (s : SurfaceId) :
    (h.newSurface t).2.surface? s =
      if s.index = h.surfaces.size then some (.ofType t) else h.surface? s :=
  Array.getElem?_push

theorem surface?_newSurface_self (h : Host) (t : TypeId) :
    (h.newSurface t).2.surface? (h.newSurface t).1 = some (.ofType t) :=
  (h.surface?_newSurface t _).trans (if_pos rfl)

/-- A new surface comes after those that there are. -/
theorem surface?_newSurface_of_some {s : SurfaceId} {surface : Surface}
    (hs : h.surface? s = some surface) (t : TypeId) :
    (h.newSurface t).2.surface? s = some surface := by
  obtain ⟨hlt, -⟩ := Array.getElem?_eq_some_iff.mp hs
  rw [surface?_newSurface, if_neg (Nat.ne_of_lt hlt)]
  exact hs

theorem Projects.extends {s : SurfaceId} {surface : Surface} {p : Part}
    (hk : h.Projects s surface p h') (hs : h.surface? s = some surface)
    (hp : surface.part? p = none) : h.Extends h' := by
  refine .of_surfaces hk.catalog hk.shared hk.distances fun u other hu => ?_
  by_cases heq : u = s
  · subst heq
    cases hs.symm.trans hu
    exact ⟨_, hk.surface?_self hs, surface.keptIn_withPart hp _⟩
  · exact ⟨other, by rw [hk.surface?_of_ne heq]; exact hu, .refl other⟩

theorem Effect.extends (he : h.Effect h') : h.Extends h' := by
  cases he with
  | grown types hg => exact { Extends.refl h with types := hg }
  | attached t m free hm =>
    exact { Extends.refl h with
      members := fun _ _ hu => TypeMap.get?_insert_of_free free hu m }
  | measured target candidate hc =>
    exact { Extends.refl h with
      distances := fun _ _ _ he => DistanceMemo.distance?_query he h.types target candidate }
  | opened t =>
    exact { Extends.refl h with
      surfaces := fun _ surface hs => ⟨surface, surface?_newSurface_of_some hs t, .refl surface⟩ }
  | shared t free ht =>
    exact { Extends.refl h with
      surfaces := fun _ surface hs => ⟨surface, surface?_newSurface_of_some hs t, .refl surface⟩,
      shared := fun _ _ hu => TypeMap.get?_insert_of_free free hu _ }
  | projected s p hs hp => exact (ask_of_new hs hp).2.extends hs hp
  | aside hv => exact hv.extends

/-- The runs from one host to a later one. -/
abbrev LeadsTo : Host → Host → Prop := Relation.ReflTransGen Step

theorem Reachable.leadsTo (hr : h.Reachable) (hl : h.LeadsTo h') : h'.Reachable := by
  induction hl with
  | refl => exact hr
  | tail _ st ih => exact .step ih st

/-- **Runs.** What a host has is still there in every later one. -/
theorem LeadsTo.extends (hl : h.LeadsTo h') : h.Extends h' := by
  induction hl with
  | refl => exact .refl h
  | tail _ st ih => exact ih.trans st.effect.extends

/-- A part that is there stays, and is answered without any change. -/
theorem Extends.ask_eq {s : SurfaceId} {p : Part} (hk : h.Extends h')
    {x : p.Content} (hx : h.part? s p = some x) :
    h'.ask s p = (x, h') := by
  obtain ⟨surface, hs, hx⟩ := part?_eq_some_iff.mp hx
  obtain ⟨later, hlater, hkept⟩ := hk.surfaces s surface hs
  exact ask_of_kept hlater (hkept.parts p x hx)

/-! ## Where members come from -/

theorem attach_of_free {t : TypeId} (free : h.catalog.members.get? t = none) (m : Members) :
    h.attach t m =
      .ok { h with catalog := { h.catalog with members := h.catalog.members.insert t m } } := by
  rw [attach, Catalog.attach, TypeMap.contains, free]
  rfl

/-- The host after a type has been given declared members. -/
def withDeclared (h : Host) (t : TypeId) (ds : List Declaration) : Host :=
  { h with catalog := { h.catalog with
      members := h.catalog.members.insert t (.ofDeclarations t ds) } }

theorem step_withDeclared {t : TypeId} {ds : List Declaration} (ht : h.types.Has t)
    (hd : ∀ d ∈ ds, ∀ u ∈ d.mentions, h.types.Has u)
    (valid : ds.findSome? Declaration.invalidName? = none)
    (free : h.catalog.members.get? t = none) : Step h (h.withDeclared t ds) := by
  refine .define t ds ht hd ?_
  rw [define, Catalog.define, valid]
  exact attach_of_free free _

theorem members_of_attach {t : TypeId} {m : Members} (ok : h.attach t m = .ok h') :
    h'.catalog.members.get? t = some m := by
  obtain ⟨-, rfl⟩ := of_attach ok
  exact (TypeMap.get?_insert _ _ _ _).trans (if_pos rfl)

/-- Members that a type has were there before the operation, or the operation attached them. -/
theorem Effect.members_origin (he : h.Effect h') {t : TypeId} {m : Members}
    (hm : h'.catalog.members.get? t = some m) :
    h.catalog.members.get? t = some m ∨ h.attach t m = .ok h' := by
  cases he with
  | attached u own free hu =>
    rw [TypeMap.get?_insert] at hm
    split at hm
    · rename_i heq
      cases heq
      cases hm
      exact .inr (attach_of_free free _)
    · exact .inl hm
  | projected s p hs hp =>
    rw [(ask_of_new hs hp).2.catalog] at hm
    exact .inl hm
  | aside hv =>
    rw [hv.catalog] at hm
    exact .inl hm
  | _ => exact .inl hm

/-- **Origins of members.** Members that a type has were attached to it at one time. -/
theorem Reachable.exists_attached (hr : h.Reachable) {t : TypeId} {m : Members}
    (hm : h.catalog.members.get? t = some m) :
    ∃ h₀ h₁ : Host, h₀.Reachable ∧ h₀.attach t m = .ok h₁ ∧ h₁.LeadsTo h := by
  induction hr with
  | initial => cases hm
  | @step h h' hr st ih =>
    rcases st.effect.members_origin hm with hm | ok
    · obtain ⟨h₀, h₁, hr₀, ok, hl⟩ := ih hm
      exact ⟨h₀, h₁, hr₀, ok, hl.tail st⟩
    · exact ⟨h, h', hr, ok, .refl⟩

/-! ## What every host keeps in order -/

/-- The memo is that of the types, members name types that are there, and each shared surface is of
the type that it is found by. -/
structure Coherent (h : Host) : Prop where
  distances : h.distances.Agrees h.types
  members : ∀ t m, h.catalog.members.get? t = some m → ∀ u ∈ m.mentions, h.types.Has u
  shared : ∀ t s, h.shared.get? t = some s →
    h.types.Has t ∧ ∃ surface, h.surface? s = some surface ∧ surface.type = t

theorem coherent_initial : initial.Coherent := ⟨DistanceMemo.agrees_empty _, nofun, nofun⟩

/-- A surface stays, and its type with it. -/
theorem Extends.surface_of_type (hk : h.Extends h') {t : TypeId} {s : SurfaceId}
    (hs : h.types.Has t ∧ ∃ surface, h.surface? s = some surface ∧ surface.type = t) :
    h'.types.Has t ∧ ∃ surface, h'.surface? s = some surface ∧ surface.type = t := by
  obtain ⟨ht, surface, hs, rfl⟩ := hs
  obtain ⟨later, hl, hkept⟩ := hk.surfaces s surface hs
  exact ⟨hk.types.has ht, later, hl, hkept.type⟩

/-- An operation on surfaces, or on parts of the host that are not looked at here. -/
theorem Coherent.congr (hh : h.Coherent) (hk : h.Extends h') (hc : h'.catalog = h.catalog)
    (hsh : h'.shared = h.shared) (hd : h'.distances = h.distances) : h'.Coherent where
  distances := by rw [types, hc, hd]; exact hh.distances
  members := by rw [types, hc]; exact hh.members
  shared t s hs := hk.surface_of_type (hh.shared t s (hsh ▸ hs))

theorem Effect.coherent (he : h.Effect h') (hh : h.Coherent) : h'.Coherent := by
  have hk := he.extends
  cases he with
  | grown types hg =>
    exact ⟨hh.distances.growsTo hg, fun t m hm u hu => hg.has (hh.members t m hm u hu),
      fun t s hs => hk.surface_of_type (hh.shared t s hs)⟩
  | attached t m free hm =>
    refine ⟨hh.distances, fun u m' hu => ?_, hh.shared⟩
    rw [TypeMap.get?_insert] at hu
    split at hu
    · cases hu
      exact hm
    · exact hh.members u m' hu
  | measured target candidate hc =>
    exact ⟨(hh.distances.query target candidate).2 hc, hh.members, hh.shared⟩
  | opened t => exact hh.congr hk rfl rfl rfl
  | shared t free ht =>
    refine ⟨hh.distances, hh.members, fun u s hs => ?_⟩
    rw [TypeMap.get?_insert] at hs
    split at hs
    · rename_i heq
      cases hs
      exact ⟨heq ▸ ht, _, h.surface?_newSurface_self t, heq⟩
    · exact hk.surface_of_type (hh.shared u s hs)
  | projected s p hs hp =>
    have hpr := (ask_of_new hs hp).2
    exact hh.congr hk hpr.catalog hpr.shared hpr.distances
  | aside hv => exact hh.congr hk hv.catalog hv.shared hv.distances

theorem Reachable.coherent (hr : h.Reachable) : h.Coherent := by
  induction hr with
  | initial => exact coherent_initial
  | step _ st ih => exact st.effect.coherent ih

end Host

end Interop
