import Interop.Proofs.Host.Effect
import Interop.Proofs.Surface.Projection

/-!
# Shared surfaces

A part of the shared surface of a type is projected when it is first asked for, and never again. So
it is what the members were at that time, and it can miss members that a type was given later.

* `Host.sharedPart`, `Host.freshPart`: a part of the shared surface, and of a new one.
* `Host.FirstAsked`: the host in which a part was first asked for.
* `Host.Reachable.sharedPart_snapshot`: the shared part is the new one of that host. It is still the
  new one now unless a source has been given members since.
-/

namespace Interop

namespace Host

variable {h h' h₀ : Host} {t : TypeId} {s : SurfaceId} {p : Part} {surface : Surface}

/-- A part of the shared surface of a type. -/
def sharedPart (h : Host) (t : TypeId) (p : Part) : p.Content :=
  ((h.sharedSurface t).2.ask (h.sharedSurface t).1 p).1

/-- A part of a new surface of a type. -/
def freshPart (h : Host) (t : TypeId) (p : Part) : p.Content :=
  ((h.newSurface t).2.ask (h.newSurface t).1 p).1

/-- The shared surface of the type, if there is one, has not been asked for the part. -/
def Unasked (h : Host) (t : TypeId) (p : Part) : Prop :=
  ∀ s surface, h.shared.get? t = some s → h.surface? s = some surface → surface.part? p = none

/-- In the run to `h`, the part of the shared surface of `t` is first asked for in `h₀`. That is `h`
itself if the part has not been asked for before. -/
structure FirstAsked (h₀ h : Host) (t : TypeId) (p : Part) : Prop where
  unasked : h₀.Unasked t p
  later : h₀ = h ∨ ∃ s, h₀.shared.get? t = some s ∧ (h₀.ask s p).2.LeadsTo h

theorem unasked_of_part? (hs : h.shared.get? t = some s) (hsurface : h.surface? s = some surface)
    (hp : surface.part? p = none) : h.Unasked t p := by
  intro u other hu hother
  cases hs.symm.trans hu
  cases hsurface.symm.trans hother
  exact hp

theorem unasked_of_unshared (hnone : h.shared.get? t = none) : h.Unasked t p := by
  intro s surface hs
  rw [hnone] at hs
  cases hs

theorem exists_part?_of_not_unasked (hu : ¬ h.Unasked t p) :
    ∃ s surface x, h.shared.get? t = some s ∧ h.surface? s = some surface ∧
      surface.part? p = some x := by
  by_contra hnone
  refine hu fun s surface hshared hs => Option.eq_none_iff_forall_ne_some.mpr fun x hx => ?_
  exact hnone ⟨s, surface, x, hshared, hs, hx⟩

/-! ## Parts that are asked for -/

theorem sharedSurface_of_shared (hs : h.shared.get? t = some s) : h.sharedSurface t = (s, h) := by
  rw [sharedSurface, hs]

theorem freshPart_eq (h : Host) (t : TypeId) (p : Part) :
    h.freshPart t p = h.catalog.project t p :=
  (ask_of_new (h.surface?_newSurface_self t) (Surface.part?_ofType t p)).1

theorem sharedPart_of_unasked (hh : h.Coherent) (hu : h.Unasked t p) :
    h.sharedPart t p = h.catalog.project t p := by
  unfold sharedPart sharedSurface
  split
  · rename_i s hs
    obtain ⟨-, surface, hsurface, rfl⟩ := hh.shared t s hs
    exact (ask_of_new hsurface (hu s surface hs hsurface)).1
  · have hnew : surface? { (h.newSurface t).2 with shared := h.shared.insert t (h.newSurface t).1 }
        (h.newSurface t).1 = some (.ofType t) := h.surface?_newSurface_self t
    exact (ask_of_new hnew (Surface.part?_ofType t p)).1

/-- A part that has been asked for is found in every later host. -/
theorem sharedPart_of_later (hh : h₀.Coherent) (hu : h₀.Unasked t p)
    (hs : h₀.shared.get? t = some s) (hl : (h₀.ask s p).2.LeadsTo h) :
    h.sharedPart t p = h₀.catalog.project t p := by
  obtain ⟨-, surface, hsurface, rfl⟩ := hh.shared t s hs
  have hs' : h.shared.get? surface.type = some s :=
    ((h₀.effect_ask s p).extends.trans hl.extends).shared _ s hs
  rw [sharedPart, sharedSurface_of_shared hs', hl.extends.ask_eq (part?_ask hsurface p)]
  exact (ask_of_new hsurface (hu s surface hs hsurface)).1

theorem FirstAsked.sharedPart_eq (hf : h₀.FirstAsked h t p) (hh : h₀.Coherent) :
    h.sharedPart t p = h₀.catalog.project t p := by
  rcases hf.later with rfl | ⟨s, hs, hl⟩
  · exact sharedPart_of_unasked hh hf.unasked
  · exact sharedPart_of_later hh hf.unasked hs hl

/-- Nothing is lost between the two hosts, and the type is there in both. -/
theorem FirstAsked.extends (hf : h₀.FirstAsked h t p) (hh : h₀.Coherent) (ht : h.types.Has t) :
    h₀.Extends h ∧ h₀.types.Has t := by
  rcases hf.later with rfl | ⟨s, hs, hl⟩
  · exact ⟨.refl h₀, ht⟩
  · exact ⟨(h₀.step_ask s p).effect.extends.trans hl.extends, (hh.shared t s hs).1⟩

/-! ## The first time -/

/-- No part of a new surface is there. -/
theorem part?_newSurface {x : p.Content} (hs : (h.newSurface t).2.surface? s = some surface)
    (hx : surface.part? p = some x) : h.surface? s = some surface := by
  rw [surface?_newSurface] at hs
  split at hs
  · cases hs
    rw [Surface.part?_ofType] at hx
    cases hx
  · exact hs

/-- **Origins.** A part of a surface was there before the operation, or the operation asked
for it. -/
theorem Effect.part_origin (he : h.Effect h') {x : p.Content} (hs : h'.surface? s = some surface)
    (hx : surface.part? p = some x) :
    (∃ before, h.surface? s = some before ∧ before.part? p = some x) ∨
      (h' = (h.ask s p).2 ∧ ∃ before, h.surface? s = some before ∧ before.part? p = none) := by
  cases he with
  | grown types hg => exact .inl ⟨surface, hs, hx⟩
  | attached t m free hm => exact .inl ⟨surface, hs, hx⟩
  | measured target candidate hc => exact .inl ⟨surface, hs, hx⟩
  | opened t => exact .inl ⟨surface, part?_newSurface hs hx, hx⟩
  | shared t free ht => exact .inl ⟨surface, part?_newSurface hs hx, hx⟩
  | @projected other u q hu hq =>
    have hp := (ask_of_new hu hq).2
    by_cases hsu : s = u
    · subst hsu
      rw [hp.surface?_self hu] at hs
      cases hs
      by_cases hpq : p = q
      · subst hpq
        exact .inr ⟨rfl, other, hu, hq⟩
      · rw [other.part?_withPart_of_ne hpq] at hx
        exact .inl ⟨other, hu, hx⟩
    · rw [hp.surface?_of_ne hsu] at hs
      exact .inl ⟨surface, hs, hx⟩
  | aside hv =>
    rw [surface?, hv.surfaces] at hs
    exact .inl ⟨surface, hs, hx⟩

/-- **First requests.** A part that is there was asked for at one time. -/
theorem Reachable.exists_asked (hr : h.Reachable) {x : p.Content} (hs : h.surface? s = some surface)
    (hx : surface.part? p = some x) :
    ∃ h₀ : Host, ∃ before, h₀.Reachable ∧ h₀.surface? s = some before ∧
      before.part? p = none ∧ (h₀.ask s p).2.LeadsTo h := by
  induction hr generalizing surface with
  | initial => cases hs
  | @step h h' hr st ih =>
    rcases st.effect.part_origin hs hx with ⟨before, hs, hx⟩ | ⟨rfl, before, hs, hnone⟩
    · obtain ⟨h₀, first, hr₀, hs₀, hnone, hl⟩ := ih hs hx
      exact ⟨h₀, first, hr₀, hs₀, hnone, hl.tail st⟩
    · exact ⟨h, before, hr, hs, hnone, .refl⟩

/-- Only a new surface becomes a shared one. -/
theorem Effect.shared_of_old (he : h.Effect h') (hs : h.surface? s = some surface)
    (hshared : h'.shared.get? t = some s) : h.shared.get? t = some s := by
  cases he with
  | shared u free hu =>
    rw [TypeMap.get?_insert] at hshared
    split at hshared
    · cases hshared
      obtain ⟨hlt, -⟩ := Array.getElem?_eq_some_iff.mp hs
      exact absurd hlt (Nat.lt_irrefl _)
    · exact hshared
  | projected u q hu hq =>
    rw [(ask_of_new hu hq).2.shared] at hshared
    exact hshared
  | aside hv =>
    rw [hv.shared] at hshared
    exact hshared
  | _ => exact hshared

theorem LeadsTo.shared_of_old (hl : h.LeadsTo h') (hs : h.surface? s = some surface)
    (hshared : h'.shared.get? t = some s) : h.shared.get? t = some s := by
  induction hl with
  | refl => exact hshared
  | tail hl st ih =>
    obtain ⟨later, hlater, -⟩ := (LeadsTo.extends hl).surfaces s surface hs
    exact ih (st.effect.shared_of_old hlater hshared)

theorem Reachable.exists_firstAsked (hr : h.Reachable) (t : TypeId) (p : Part) :
    ∃ h₀ : Host, h₀.Reachable ∧ h₀.FirstAsked h t p := by
  by_cases hu : h.Unasked t p
  · exact ⟨h, hr, hu, .inl rfl⟩
  · obtain ⟨s, surface, x, hshared, hs, hx⟩ := exists_part?_of_not_unasked hu
    obtain ⟨h₀, before, hr₀, hs₀, hnone, hl⟩ := hr.exists_asked hs hx
    have hask := (ask_of_new hs₀ hnone).2
    have hshared₀ : h₀.shared.get? t = some s := by
      have := hl.shared_of_old (hask.surface?_self hs₀) hshared
      rwa [hask.shared] at this
    exact ⟨h₀, hr₀, unasked_of_part? hshared₀ hs₀ hnone, .inr ⟨s, hshared₀, hl⟩⟩

/-! ## Shared and new -/

/-- A part stays the same while no source of it is given members. -/
theorem Extends.project_eq (hk : h₀.Extends h) (hr₀ : h₀.Reachable) (hr : h.Reachable)
    (ht : h₀.types.Has t) (hsame : ∀ u ∈ p.sources h.types t,
      h₀.catalog.members.get? u = none → h.catalog.members.get? u = none) :
    h.catalog.project t p = h₀.catalog.project t p := by
  have hl : h.types.lineage t = h₀.types.lineage t :=
    hr₀.sound.types.lineage_growsTo hr.sound.types hk.types ht
  have hsources : p.sources h.types t = p.sources h₀.types t := by
    cases p with
    | constructors => rfl
    | _ => exact hl
  rw [hsources] at hsame
  refine Catalog.project_congr p hl (fun u hu => ?_) (fun u hu => ?_)
  · cases hm : h₀.catalog.members.get? u with
    | none => exact hsame u hu hm
    | some m => exact hk.members u m hm
  · obtain ⟨v, m, hm, hu⟩ := Catalog.mem_mentions_of_visibleNested hu
    exact hk.types.name (hr₀.coherent.members v m hm u hu)

/-- **Projections of shared surfaces.** Each part of the shared surface of a type is first asked for
in some host. What is found now is what a new surface shows in that host. It is also what a new
surface shows now if every source of the part that has members now had them already. -/
theorem Reachable.sharedPart_snapshot (hr : h.Reachable) {t : TypeId} (ht : h.types.Has t)
    (p : Part) :
    (∃ h₀ : Host, h₀.Reachable ∧ h₀.FirstAsked h t p) ∧
      ∀ h₀ : Host, h₀.Reachable → h₀.FirstAsked h t p →
        h.sharedPart t p = h₀.freshPart t p ∧
          ((∀ u ∈ p.sources h.types t, h₀.catalog.members.get? u = none →
              h.catalog.members.get? u = none) →
            h.sharedPart t p = h.freshPart t p) := by
  refine ⟨hr.exists_firstAsked t p, fun h₀ hr₀ hf => ?_⟩
  have hh₀ := hr₀.coherent
  obtain ⟨hk, ht₀⟩ := hf.extends hh₀ ht
  rw [hf.sharedPart_eq hh₀, freshPart_eq, freshPart_eq]
  exact ⟨rfl, fun hsame => (hk.project_eq hr₀ hr ht₀ hsame).symm⟩

/-! ## A class with late members -/

/-- A new host with a class and another one that is to be nested in it. -/
def sample : Host :=
  ((initial.declareClass "Sample" none []).2.declareClass "Sample$Part" none []).2

/-- A public member of each kind. -/
def sampleMembers : List Declaration :=
  [.field "size" Builtin.object ⟨true, false, false, false, false⟩ .unchecked,
    .method "text" [] none ⟨true, false, false, false, false⟩,
    .constructor [] ⟨true, false, false, false, false⟩,
    .nested ⟨26⟩ ⟨true, false, false, false, false⟩]

/-- The host after a type has been given these members. -/
def withSample (h : Host) (t : TypeId) : Host :=
  { h with catalog := { h.catalog with
      members := h.catalog.members.insert t (.ofDeclarations t sampleMembers) } }

/-- The host after the shared surface of the class has been asked for all its parts. -/
def asked (h : Host) : Host :=
  let (s, h) := h.sharedSurface ⟨25⟩
  ((((h.ask s .fields).2.ask s .methods).2.ask s .constructors).2.ask s .nested).2

theorem reachable_sample : sample.Reachable :=
  (Reachable.initial.step (.declareClass "Sample" none [] nofun nofun)).step
    (.declareClass "Sample$Part" none [] nofun nofun)

theorem Reachable.asked (hr : h.Reachable) (ht : h.types.Has ⟨25⟩) : h.asked.Reachable :=
  ((((hr.step (.sharedSurface ⟨25⟩ ht)).step (step_ask _ _ .fields)).step
    (step_ask _ _ .methods)).step (step_ask _ _ .constructors)).step (step_ask _ _ .nested)

theorem step_withSample (ht : h.types.Has t) (hn : h.types.Has ⟨26⟩)
    (free : h.catalog.members.get? t = none) : Step h (h.withSample t) := by
  have known : ∀ d ∈ sampleMembers, ∀ u ∈ d.mentions, u.index ≤ 26 := by decide
  have hd : ∀ d ∈ sampleMembers, ∀ u ∈ d.mentions, h.types.Has u :=
    fun d hd u hu => Nat.lt_of_le_of_lt (known d hd u hu) hn
  exact step_withDeclared ht hd rfl free

theorem lineage_sample : sample.types.lineage ⟨25⟩ = [⟨25⟩, ⟨0⟩] := by
  have object : sample.types.Unfolds [⟨0⟩] [⟨0⟩] := .single .nil
  have derived : sample.types.Unfolds [⟨25⟩] [⟨25⟩, ⟨0⟩] := .single object
  rw [reachable_sample.sound.types.lineage_eq (by decide) derived]
  rfl

/-- The methods of the class are asked for after it has been given its members. What the other class
is given later makes no difference. -/
theorem sharedPart_snapshot_sample :
    let first := ((sample.withSample ⟨25⟩).sharedSurface ⟨25⟩).2
    let now := (first.ask ⟨0⟩ .methods).2.withSample ⟨26⟩
    now.Reachable ∧ now.types.Has ⟨25⟩ ∧ first.Reachable ∧ first.FirstAsked now ⟨25⟩ .methods ∧
      now.sharedPart ⟨25⟩ .methods = first.freshPart ⟨25⟩ .methods ∧
      now.sharedPart ⟨25⟩ .methods = now.freshPart ⟨25⟩ .methods := by
  intro first now
  have hfirst : first.Reachable :=
    (reachable_sample.step (step_withSample (by decide) (by decide) rfl)).step
      (.sharedSurface ⟨25⟩ (by decide))
  have later : (first.ask ⟨0⟩ .methods).2.LeadsTo now :=
    .single (step_withSample (by decide) (by decide) rfl)
  have hnow : now.Reachable := (hfirst.step (step_ask _ _ _)).leadsTo later
  have ht : now.types.Has ⟨25⟩ := by decide
  have hasked : first.FirstAsked now ⟨25⟩ .methods := by
    have hsurface : first.surface? ⟨0⟩ = some (.ofType ⟨25⟩) := rfl
    exact ⟨unasked_of_part? rfl hsurface rfl, .inr ⟨⟨0⟩, rfl, later⟩⟩
  obtain ⟨hsnapshot, hcurrent⟩ :=
    (hnow.sharedPart_snapshot ht .methods).2 first hfirst hasked
  refine ⟨hnow, ht, hfirst, hasked, hsnapshot, hcurrent fun u hu hnone => ?_⟩
  have hne : ⟨26⟩ ≠ u := by
    rintro rfl
    have hmem : (⟨26⟩ : TypeId) ∈ sample.types.lineage ⟨25⟩ := hu
    rw [lineage_sample] at hmem
    exact absurd hmem (by decide)
  show (first.catalog.members.insert ⟨26⟩ _).get? u = none
  rw [TypeMap.get?_insert, if_neg hne]
  exact hnone

theorem sharedPart_late (p : Part) :
    (sample.asked.withSample ⟨25⟩).sharedPart ⟨25⟩ p = sample.catalog.project ⟨25⟩ p := by
  cases p <;> rfl

/-- If the class is given its members after all parts of its shared surface have been asked for,
each part of that surface misses what a new surface shows. -/
theorem sharedPart_late_ne_freshPart :
    (sample.asked.withSample ⟨25⟩).Reachable ∧ (sample.asked.withSample ⟨25⟩).types.Has ⟨25⟩ ∧
      ∀ p, (sample.asked.withSample ⟨25⟩).sharedPart ⟨25⟩ p ≠
        (sample.asked.withSample ⟨25⟩).freshPart ⟨25⟩ p := by
  have hr : sample.asked.Reachable := reachable_sample.asked (by decide)
  refine ⟨hr.step (step_withSample (by decide) (by decide) rfl), by decide, fun p heq => ?_⟩
  have hl : sample.catalog.types.lineage ⟨25⟩ = [⟨25⟩, ⟨0⟩] := lineage_sample
  have hl' : (sample.asked.withSample ⟨25⟩).catalog.types.lineage ⟨25⟩ = [⟨25⟩, ⟨0⟩] :=
    lineage_sample
  rw [sharedPart_late, freshPart_eq] at heq
  cases p with
  | fields =>
    have hnames := congrArg NameTable.names heq
    simp only [Catalog.project, Catalog.fieldTable, Catalog.visibleFields, Catalog.declaredAlong,
      hl, hl'] at hnames
    exact absurd hnames (by decide)
  | methods =>
    have hnames := congrArg NameTable.names heq
    simp only [Catalog.project, Catalog.methodTable, Catalog.visibleMethods,
      Catalog.declaredAlong, hl, hl'] at hnames
    exact absurd hnames (by decide)
  | constructors => exact absurd (congrArg Option.isSome heq) (by decide)
  | nested =>
    have hnames := congrArg NameTable.names heq
    simp only [Catalog.project, Catalog.nestedTable, Catalog.visibleNested, Catalog.declaredAlong,
      hl, hl'] at hnames
    exact absurd hnames (by decide)

end Host

end Interop
