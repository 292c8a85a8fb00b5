import Interop.Proofs.Surface.Snapshot
import Mathlib.Data.List.Basic

/-!
# Surfaces that are asked once

However often a part of a shared surface is asked for, it is projected once and reported once, in
the host in which it is first asked for. Everybody who asks later gets the same answer, and nothing
happens then.

* `Host.projections`, `Host.reports`: the projections that the log reports, and those of the parts
  that surfaces have.
* `Host.Step.quiet_or_asked`: an operation projects nothing, or it asks a surface for a part that
  was not there. `Host.Reachable.reported`: so the two lists above are the same up to order.
* `Host.AskedOnce`: what asking a shared surface for a part should come to.
* `Host.Reachable.askedOnce`: it does, at any time in any run.
-/

namespace Interop

/-! ## Reports -/

namespace Part

def all : List Part := [.fields, .methods, .constructors, .nested]

/-- The parts before and after a part. -/
theorem all_eq_append (p : Part) :
    ∃ before after, all = before ++ p :: after ∧ p ∉ before ∧ p ∉ after := by
  cases p with
  | fields => exact ⟨[], [.methods, .constructors, .nested], rfl, by decide, by decide⟩
  | methods => exact ⟨[.fields], [.constructors, .nested], rfl, by decide, by decide⟩
  | constructors => exact ⟨[.fields, .methods], [.nested], rfl, by decide, by decide⟩
  | nested => exact ⟨[.fields, .methods, .constructors], [], rfl, by decide, by decide⟩

/-- How many entries a part has. -/
def size : (p : Part) → p.Content → Nat
  | .fields, table => table.size
  | .methods, table => table.size
  | .constructors, found => found.elim 0 fun o => o.candidates.length
  | .nested, table => table.size

end Part

theorem Catalog.size_constructors? (c : Catalog) (t : TypeId) :
    Part.size .constructors (c.constructors? t) = (c.visibleConstructors t).length := by
  rw [constructors?]
  cases c.visibleConstructors t <;> simp [Part.size, OverloadSet.ofList?, OverloadSet.candidates]

def Notice.isProjected : Notice → Bool
  | projected .. => true
  | _ => false

namespace Surface

variable {p : Part} {surface : Surface}

/-- The report of a part, if the part is there. -/
def report? (surface : Surface) (p : Part) : Option Notice :=
  (surface.part? p).map fun x => .projected surface.type p (p.size x)

/-- The reports of the parts that are there. -/
def reports (surface : Surface) : List Notice := Part.all.filterMap surface.report?

theorem reports_ofType (t : TypeId) : (ofType t).reports = [] := rfl

/-- A new part comes with one report. -/
theorem reports_withPart (hp : surface.part? p = none) (x : p.Content) :
    (surface.withPart p x).reports.Perm
      (.projected surface.type p (p.size x) :: surface.reports) := by
  have others : ∀ q ≠ p, (surface.withPart p x).report? q = surface.report? q := fun q hq => by
    rw [report?, part?_withPart_of_ne surface hq, type_withPart]
    rfl
  have self : (surface.withPart p x).report? p = some (.projected surface.type p (p.size x)) := by
    rw [report?, part?_withPart_self, type_withPart]
    rfl
  have missing : surface.report? p = none := by
    rw [report?, hp]
    rfl
  obtain ⟨before, after, hall, hb, ha⟩ := p.all_eq_append
  simp only [reports, hall, List.filterMap_append, List.filterMap_cons, self, missing]
  rw [List.filterMap_congr fun q hq => others q fun heq => hb (heq ▸ hq),
    List.filterMap_congr fun q hq => others q fun heq => ha (heq ▸ hq)]
  exact List.perm_middle

end Surface

namespace Host

variable {h h' h₀ : Host} {t : TypeId} {s : SurfaceId} {p : Part} {surface : Surface}

/-- The projections that have been reported. -/
def projections (h : Host) : List Notice := h.log.filter Notice.isProjected

/-- The reports of all parts that surfaces have. -/
def reports (h : Host) : List Notice := h.surfaces.toList.flatMap Surface.reports

/-- What is reported about a part before its projection: the fields that are left out. -/
def omissions (h : Host) (t : TypeId) : Part → List Notice
  | .fields => (h.catalog.omittedFields t).map fun f => .fieldOmitted t f.name (h.refusal f)
  | _ => []

/-- A part that is projected is reported at once. -/
theorem log_ask_of_new (hs : h.surface? s = some surface) (hp : surface.part? p = none) :
    (h.ask s p).2.log = h.log ++ h.omissions surface.type p ++
      [.projected surface.type p (p.size (h.catalog.project surface.type p))] := by
  cases p
  case constructors =>
    rw [Surface.part?] at hp
    simp only [ask, constructors, hs, hp, keep, omissions, List.append_nil]
    rw [← Catalog.size_constructors?]
    rfl
  all_goals
    rw [Surface.part?] at hp
    simp only [ask, fields, methods, nested, hs, hp, keep, relaxPublic, omissions,
      List.append_assoc, List.append_nil]
    rfl

theorem filter_omissions (h : Host) (t : TypeId) (p : Part) :
    (h.omissions t p).filter Notice.isProjected = [] := by
  cases p with
  | fields => simp [omissions, List.filter_map, Function.comp_def, Notice.isProjected]
  | _ => rfl

theorem projections_ask_of_new (hs : h.surface? s = some surface) (hp : surface.part? p = none) :
    (h.ask s p).2.projections = h.projections ++
      [.projected surface.type p (p.size (h.catalog.project surface.type p))] := by
  rw [projections, log_ask_of_new hs hp, List.filter_append, List.filter_append, filter_omissions,
    List.append_nil]
  rfl

theorem reports_ask_of_new (hs : h.surface? s = some surface) (hp : surface.part? p = none) :
    (h.ask s p).2.reports.Perm
      (.projected surface.type p (p.size (h.catalog.project surface.type p)) :: h.reports) := by
  obtain ⟨hlt, hget⟩ := Array.getElem?_eq_some_iff.mp hs
  obtain ⟨before, after, hall, -, hset⟩ :=
    @List.exists_of_set _ s.index (surface.withPart p _) h.surfaces.toList hlt
  rw [Array.getElem_toList, hget] at hall
  rw [reports, reports, (ask_of_new hs hp).2.surfaces, Array.toList_setIfInBounds, hset, hall]
  simp only [List.flatMap_append, List.flatMap_cons]
  refine (((Surface.reports_withPart hp _).append_right _).append_left _).trans ?_
  exact List.perm_middle

/-! ## What operations report -/

/-- No projection is reported and no surface gets a part. -/
structure Quiet (h h' : Host) : Prop where
  projections : h'.projections = h.projections
  reports : h'.reports = h.reports

theorem Quiet.of_eq (hl : h'.log = h.log) (hs : h'.surfaces = h.surfaces) : h.Quiet h' where
  projections := by rw [Host.projections, hl]; rfl
  reports := by rw [Host.reports, hs]; rfl

/-- Other notices are reported. -/
theorem Quiet.of_append {notices : List Notice} (hl : h'.log = h.log ++ notices)
    (hn : notices.filter Notice.isProjected = []) (hs : h'.surfaces = h.surfaces) :
    h.Quiet h' where
  projections := by rw [Host.projections, hl, List.filter_append, hn, List.append_nil]; rfl
  reports := by rw [Host.reports, hs]; rfl

theorem Quiet.of_push (hl : h'.log = h.log) (hs : h'.surfaces = h.surfaces.push (.ofType t)) :
    h.Quiet h' where
  projections := by rw [Host.projections, hl]; rfl
  reports := by
    rw [Host.reports, hs, Array.toList_push, List.flatMap_append, List.flatMap_singleton,
      Surface.reports_ofType, List.append_nil]
    rfl

theorem quiet_sharedSurface (h : Host) (t : TypeId) : h.Quiet (h.sharedSurface t).2 := by
  unfold sharedSurface
  split
  · exact .of_eq rfl rfl
  · exact .of_push rfl rfl

theorem quiet_attach {m : Members} (ok : h.attach t m = .ok h') : h.Quiet h' := by
  unfold attach at ok
  cases hc : h.catalog.attach t m <;> rw [hc] at ok <;> cases ok
  exact .of_eq rfl rfl

theorem quiet_define {ds : List Declaration} (ok : h.define t ds = .ok h') : h.Quiet h' := by
  unfold define at ok
  cases hc : h.catalog.define t ds <;> rw [hc] at ok <;> cases ok
  exact .of_eq rfl rfl

theorem quiet_relax {f : Field} (ok : h.relax f = .ok h') : h.Quiet h' := by
  unfold relax at ok
  split at ok <;> cases ok <;> exact .of_eq rfl rfl

theorem quiet_adopt (h : Host) (rules : CallRules) : h.Quiet (h.adopt rules).2 := by
  unfold adopt
  dsimp only
  split
  · exact .of_eq rfl rfl
  · exact .of_append rfl rfl rfl

theorem quiet_select (h : Host) (rules : CallRules) (overloads : OverloadSet)
    (arguments : List ScriptValue) : h.Quiet (h.select rules overloads arguments).2 := by
  refine .of_append rfl ?_ rfl
  unfold selectionNotices
  split <;> rfl

/-- A surface has been asked for a part that it did not have. -/
def Asked (h h' : Host) : Prop :=
  ∃ s p surface, h.surface? s = some surface ∧ surface.part? p = none ∧ h' = (h.ask s p).2

theorem quiet_or_asked_ask (h : Host) (s : SurfaceId) (p : Part) :
    h.Quiet (h.ask s p).2 ∨ h.Asked (h.ask s p).2 := by
  cases hs : h.surface? s with
  | none =>
    rw [ask_of_none hs]
    exact .inl (.of_eq rfl rfl)
  | some surface =>
    cases hp : surface.part? p with
    | none => exact .inr ⟨s, p, surface, hs, hp, rfl⟩
    | some x =>
      rw [ask_of_kept hs hp]
      exact .inl (.of_eq rfl rfl)

/-- **Reports of steps.** Nothing but a new part is projected or reported as such. -/
theorem Step.quiet_or_asked (st : Step h h') : h.Quiet h' ∨ h.Asked h' := by
  cases st with
  | attach t m ht hf hm ok => exact .inl (quiet_attach ok)
  | define t ds ht hd ok => exact .inl (quiet_define ok)
  | relax f hf ok => exact .inl (quiet_relax ok)
  | newSurface t ht => exact .inl (.of_push rfl rfl)
  | sharedSurface t ht => exact .inl (h.quiet_sharedSurface t)
  | fields s => exact h.quiet_or_asked_ask s .fields
  | methods s => exact h.quiet_or_asked_ask s .methods
  | constructors s => exact h.quiet_or_asked_ask s .constructors
  | nested s => exact h.quiet_or_asked_ask s .nested
  | adopt rules => exact .inl (h.quiet_adopt rules)
  | select rules overloads arguments => exact .inl (h.quiet_select rules overloads arguments)
  | _ => exact .inl (.of_eq rfl rfl)

/-- **Reports of runs.** The log reports each part that a surface has once, and no other part. -/
theorem Reachable.reported (hr : h.Reachable) : h.projections.Perm h.reports := by
  induction hr with
  | initial => exact .refl _
  | step _ st ih =>
    rcases st.quiet_or_asked with hq | ⟨s, p, surface, hs, hp, rfl⟩
    · rw [hq.projections, hq.reports]
      exact ih
    · rw [projections_ask_of_new hs hp]
      exact (List.perm_append_singleton _ _).trans
        ((ih.cons _).trans (reports_ask_of_new hs hp).symm)

/-! ## Asking a shared surface -/

/-- Asks the shared surface of a type for a part. -/
def askShared (h : Host) (t : TypeId) (p : Part) : p.Content × Host :=
  (h.sharedSurface t).2.ask (h.sharedSurface t).1 p

theorem Reachable.askShared (hr : h.Reachable) (ht : h.types.Has t) (p : Part) :
    (h.askShared t p).2.Reachable :=
  (hr.step (.sharedSurface t ht)).step (step_ask _ _ p)

/-- The shared surface is found again. -/
theorem shared_sharedSurface (h : Host) (t : TypeId) :
    (h.sharedSurface t).2.shared.get? t = some (h.sharedSurface t).1 := by
  unfold sharedSurface
  split
  · assumption
  · exact (TypeMap.get?_insert _ _ _ _).trans (if_pos rfl)

theorem log_sharedSurface (h : Host) (t : TypeId) : (h.sharedSurface t).2.log = h.log := by
  unfold sharedSurface
  split <;> rfl

theorem omissions_sharedSurface (h : Host) (t u : TypeId) (p : Part) :
    (h.sharedSurface t).2.omissions u p = h.omissions u p := by
  unfold sharedSurface
  split <;> rfl

/-- A shared surface that is new has no parts. -/
theorem unasked_sharedSurface (hu : h.Unasked t p) : (h.sharedSurface t).2.Unasked t p := by
  unfold sharedSurface
  split
  · exact hu
  · refine unasked_of_part? ?_ (h.surface?_newSurface_self t) (Surface.part?_ofType t p)
    exact (TypeMap.get?_insert _ _ _ _).trans (if_pos rfl)

/-- What a surface answers depends on its type, what it has and the members. -/
theorem ask_congr (hc : h'.catalog = h.catalog)
    (hs : (h'.surface? s).map (fun a => (a.type, a.part? p)) =
      (h.surface? s).map fun a => (a.type, a.part? p)) :
    (h'.ask s p).1 = (h.ask s p).1 := by
  cases ha : h.surface? s with
  | none =>
    have hb : h'.surface? s = none := by simpa [ha] using hs
    cases p
    all_goals
      simp only [ask, fields, methods, constructors, nested, ha, hb]
      rfl
  | some a =>
    obtain ⟨b, hb, htype, hpart⟩ :
        ∃ b, h'.surface? s = some b ∧ b.type = a.type ∧ b.part? p = a.part? p := by
      simpa [ha] using hs
    cases hp : a.part? p with
    | none =>
      rw [(ask_of_new ha hp).1, (ask_of_new hb (hpart.trans hp)).1, hc, htype]
    | some x => rw [ask_of_kept ha hp, ask_of_kept hb (hpart.trans hp)]

/-- **Other parts.** They are there or not as before, and what they answer is the same. -/
theorem ask_others {u : SurfaceId} {q : Part} (hs : h.surface? s = some surface)
    (hne : ¬ (u = s ∧ q = p)) :
    (h.ask s p).2.part? u q = h.part? u q ∧ ((h.ask s p).2.ask u q).1 = (h.ask u q).1 := by
  cases hp : surface.part? p with
  | some x =>
    rw [ask_of_kept hs hp]
    exact ⟨rfl, rfl⟩
  | none =>
    have hpr := (ask_of_new hs hp).2
    have hsame : ((h.ask s p).2.surface? u).map (fun a => (a.type, a.part? q)) =
        (h.surface? u).map fun a => (a.type, a.part? q) := by
      by_cases hu : u = s
      · subst hu
        have hq : q ≠ p := fun heq => hne ⟨rfl, heq⟩
        rw [hpr.surface?_self hs, hs, Option.map_some, Option.map_some, Surface.type_withPart,
          surface.part?_withPart_of_ne hq]
      · rw [hpr.surface?_of_ne hu]
    refine ⟨?_, ask_congr hpr.catalog hsame⟩
    have hpart := congrArg (fun o => o.bind Prod.snd) hsame
    simpa [Function.comp_def, part?, Option.bind_map] using hpart

/-! ## Once -/

/-- What it should come to when the shared surface of `t` is asked for the part `p`. -/
structure AskedOnce (h : Host) (t : TypeId) (p : Part) : Prop where
  /-- The shared surface is the same one in every later host. -/
  surface : ∀ h', (h.sharedSurface t).2.LeadsTo h' →
    h'.sharedSurface t = ((h.sharedSurface t).1, h')
  /-- Every later answer is the same, and nothing happens then. -/
  again : ∀ h', (h.askShared t p).2.LeadsTo h' → h'.askShared t p = ((h.askShared t p).1, h')
  /-- The part is first asked for in some host, and the answer is what the members are there. -/
  first : ∃ h₀ : Host, h₀.Reachable ∧ h₀.FirstAsked h t p
  snapshot : ∀ h₀ : Host, h₀.Reachable → h₀.FirstAsked h t p →
    (h.askShared t p).1 = h₀.catalog.project t p
  /-- No other part of this surface or another one is touched. -/
  others : ∀ u q, ¬ (u = (h.sharedSurface t).1 ∧ q = p) →
    (h.askShared t p).2.part? u q = (h.sharedSurface t).2.part? u q ∧
      ((h.askShared t p).2.ask u q).1 = ((h.sharedSurface t).2.ask u q).1
  /-- The projection is reported if this is the first time, after the fields that are left out. -/
  reported : h.Unasked t p → (h.askShared t p).2.log =
    h.log ++ h.omissions t p ++ [.projected t p (p.size (h.askShared t p).1)]
  silent : ¬ h.Unasked t p → (h.askShared t p).2 = h

/-- **Asked once.** In every run, each part of the shared surface of each type is projected when it
is first asked for. All answers are that projection, whatever else is done in between. The log of
the run reports each part that a surface has once, and no other part. -/
theorem Reachable.askedOnce (hr : h.Reachable) {t : TypeId} (ht : h.types.Has t) (p : Part) :
    h.AskedOnce t p ∧ h.projections.Perm h.reports := by
  have hr₁ : (h.sharedSurface t).2.Reachable := hr.step (.sharedSurface t ht)
  have hshared := h.shared_sharedSurface t
  obtain ⟨-, surface, hs, htype⟩ := hr₁.coherent.shared t _ hshared
  refine ⟨?_, hr.reported⟩
  constructor
  case surface =>
    exact fun h' hl => sharedSurface_of_shared (hl.extends.shared t _ hshared)
  case again =>
    intro h' hl
    have hk : (h.sharedSurface t).2.Extends h' := (effect_ask _ _ p).extends.trans hl.extends
    rw [Host.askShared, sharedSurface_of_shared (hk.shared t _ hshared)]
    exact hl.extends.ask_eq (part?_ask hs p)
  case first => exact hr.exists_firstAsked t p
  case snapshot => exact fun h₀ hr₀ hf => hf.sharedPart_eq hr₀.coherent
  case others => exact fun u q hne => ask_others hs hne
  case reported =>
    intro hu
    have hp := unasked_sharedSurface hu _ surface hshared hs
    rw [Host.askShared, log_ask_of_new hs hp, log_sharedSurface, omissions_sharedSurface, htype,
      (ask_of_new hs hp).1, htype]
  case silent =>
    intro hu
    obtain ⟨s, before, x, hold, hs, hx⟩ := exists_part?_of_not_unasked hu
    rw [Host.askShared, sharedSurface_of_shared hold, ask_of_kept hs hx]

/-- The constructors of a class are asked for before it has any. They are the same when it has been
given some, and nothing happens the second time. -/
theorem askedOnce_sample :
    let later := (sample.askShared ⟨25⟩ .constructors).2.withSample ⟨25⟩
    sample.Reachable ∧ sample.types.Has ⟨25⟩ ∧ later.Reachable ∧
      later.askShared ⟨25⟩ .constructors = ((sample.askShared ⟨25⟩ .constructors).1, later) ∧
      later.log = [.projected ⟨25⟩ .constructors 0] := by
  intro later
  have ht : sample.types.Has ⟨25⟩ := by decide
  have hl : (sample.askShared ⟨25⟩ .constructors).2.LeadsTo later :=
    .single (step_withSample (by decide) (by decide) rfl)
  have hr : later.Reachable := (reachable_sample.askShared ht .constructors).leadsTo hl
  have honce := (reachable_sample.askedOnce ht .constructors).1
  have hu : sample.Unasked ⟨25⟩ .constructors := unasked_of_unshared rfl
  exact ⟨reachable_sample, ht, hr, honce.again later hl, honce.reported hu⟩

end Host

end Interop
