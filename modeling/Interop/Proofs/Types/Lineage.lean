import Interop.Proofs.Members.FirstBy
import Interop.Proofs.Types.Path

/-!
# The order of a lineage

Without its marks the walk would visit a type once for each path that leads up to it. That list is
the unfolding of a type, and the lineage has the types of the unfolding in the order of their first
visits: when a type comes again, all above it has been visited.

* `TypeGraph.Unfolds`: the unfolding of a list of types.
* `TypeGraph.WellFormed.lineage_eq`: the lineage by the unfolding.
* `TypeGraph.WellFormed.mem_lineage_iff`, `TypeGraph.WellFormed.nodup_lineage`: the types above a
  type, each once.
* `TypeGraph.WellFormed.lineage_growsTo`: lineages stay when the graph grows.
* `TypeGraph.WellFormed.lineage_split`: before a type of the superclass chain come none that are
  above it.
-/

namespace Interop

namespace TypeGraph

variable {g g' : TypeGraph} {t u v x : TypeId} {work more trace rest pre post : List TypeId}

/-! ## Unfoldings -/

/-- The types that a walk without marks visits: each type of `work` and then all above it, path by
path. -/
inductive Unfolds (g : TypeGraph) : List TypeId → List TypeId → Prop
  | nil : Unfolds g [] []
  | cons {t : TypeId} {work above rest : List TypeId} (supers : Unfolds g (g.supertypes t) above)
      (others : Unfolds g work rest) : Unfolds g (t :: work) (t :: (above ++ rest))

theorem Unfolds.single {above : List TypeId} (supers : g.Unfolds (g.supertypes t) above) :
    g.Unfolds [t] (t :: above) := by
  have h := Unfolds.cons supers .nil
  rw [List.append_nil] at h
  exact h

theorem Unfolds.append (hw : g.Unfolds work trace) (hm : g.Unfolds more rest) :
    g.Unfolds (work ++ more) (trace ++ rest) := by
  induction hw with
  | nil => exact hm
  | cons supers _ _ ih =>
    rw [List.cons_append, List.cons_append, List.append_assoc]
    exact .cons supers ih

/-- The unfolding has the types above those that it starts with. -/
theorem Unfolds.mem_iff (hw : g.Unfolds work trace) :
    u ∈ trace ↔ ∃ t ∈ work, g.IsAbove u t := by
  induction hw with
  | nil => simp
  | cons _ _ ihs iho =>
    rw [List.mem_cons, List.mem_append, ihs, iho, List.exists_mem_cons_iff, isAbove_iff, or_assoc]

/-- The types above one type, in an unfolding that it is part of. -/
theorem Unfolds.mem_cons_iff {above : List TypeId} (supers : g.Unfolds (g.supertypes t) above) :
    u ∈ t :: above ↔ g.IsAbove u t := by
  rw [List.mem_cons, supers.mem_iff, isAbove_iff]

/-- A type is not above itself. -/
theorem WellFormed.notMem_of_unfolds (hg : g.WellFormed) {above : List TypeId}
    (supers : g.Unfolds (g.supertypes t) above) : t ∉ above := by
  intro ht
  obtain ⟨p, hp, habove⟩ := supers.mem_iff.mp ht
  have older := hg.supertypes_older t p hp
  have hle := hg.index_le_of_isAbove habove
  omega

theorem exists_unfolds_of (h : ∀ t ∈ work, ∃ above, g.Unfolds (g.supertypes t) above) :
    ∃ trace, g.Unfolds work trace := by
  induction work with
  | nil => exact ⟨[], .nil⟩
  | cons t work ih =>
    obtain ⟨above, supers⟩ := h t List.mem_cons_self
    obtain ⟨rest, others⟩ := ih fun u hu => h u (List.mem_cons_of_mem _ hu)
    exact ⟨_, .cons supers others⟩

/-- Supertypes are older, so the unfolding comes to an end. -/
theorem WellFormed.exists_unfolds_supertypes (hg : g.WellFormed) (t : TypeId) :
    ∃ above, g.Unfolds (g.supertypes t) above := by
  induction hn : t.index using Nat.strongRecOn generalizing t with
  | _ n ih =>
    subst hn
    exact exists_unfolds_of fun p hp => ih p.index (hg.supertypes_older t p hp) p rfl

theorem WellFormed.exists_unfolds (hg : g.WellFormed) (work : List TypeId) :
    ∃ trace, g.Unfolds work trace :=
  exists_unfolds_of fun t _ => hg.exists_unfolds_supertypes t

/-- **Repeats.** When a type comes again, all above it came before. -/
theorem WellFormed.mem_of_repeated (hg : g.WellFormed) (hw : g.Unfolds work trace)
    (hsplit : trace = pre ++ u :: post) (hu : u ∈ pre) (hx : g.IsAbove x u) : x ∈ pre := by
  induction hw generalizing pre post with
  | nil => simp at hsplit
  | @cons t work above rest supers _ ihs iho =>
    cases pre with
    | nil => cases hu
    | cons s pre =>
      injection hsplit with hhead hsplit
      subst hhead
      -- everything above the first type stands right after it
      have first : ∀ {y}, y ∈ t :: above → g.IsAbove x y → x ∈ t :: above := fun hy hxy =>
        supers.mem_cons_iff.mpr (hxy.trans (supers.mem_cons_iff.mp hy))
      rcases List.append_eq_append_iff.mp hsplit with ⟨back, rfl, hrest⟩ | ⟨back, habove, hback⟩
      · -- the repeat comes later
        rw [← List.cons_append, List.mem_append] at hu ⊢
        rcases hu with hu | hu
        · exact .inl (first hu hx)
        · exact .inr (iho hrest hu)
      · cases back with
        | nil =>
          rw [List.append_nil] at habove
          exact habove ▸ first (habove ▸ hu) hx
        | cons v back =>
          obtain ⟨rfl, -⟩ := List.cons.inj hback
          rcases List.mem_cons.mp hu with rfl | hu
          · have hmem : u ∈ above := habove ▸ List.mem_append_right _ List.mem_cons_self
            exact absurd hmem (hg.notMem_of_unfolds supers)
          · exact List.mem_cons_of_mem _ (ihs habove hu)

/-- The unfolding reads types of the graph only, so it stays when the graph grows. -/
theorem Unfolds.growsTo (hw : g.Unfolds work trace) (h : g.GrowsTo g')
    (hh : ∀ u ∈ trace, g.Has u) : g'.Unfolds work trace := by
  induction hw with
  | nil => exact .nil
  | @cons t work above rest supers others ihs iho =>
    have ha : ∀ u ∈ above, g.Has u := fun u hu =>
      hh u (List.mem_cons_of_mem _ (List.mem_append_left _ hu))
    have hr : ∀ u ∈ rest, g.Has u := fun u hu =>
      hh u (List.mem_cons_of_mem _ (List.mem_append_right _ hu))
    have hs := ihs ha
    rw [← h.supertypes (hh t List.mem_cons_self)] at hs
    exact .cons hs (iho hr)

/-! ## The walk -/

/-- Just the types in `done` are marked. -/
def Marks (g : TypeGraph) (seen : Array Bool) (done : List TypeId) : Prop :=
  ∀ u, g.Has u → seen[u.index]? = some (decide (u ∈ done))

theorem marks_nil (g : TypeGraph) : g.Marks (Array.replicate g.size false) [] := by
  intro u hu
  rw [Array.getElem?_replicate]
  exact if_pos hu

theorem Marks.visit {seen : Array Bool} {done : List TypeId} (hm : g.Marks seen done)
    (t : TypeId) : g.Marks (seen.setIfInBounds t.index true) (done ++ [t]) := by
  intro u hu
  obtain ⟨hlt, -⟩ := Array.getElem?_eq_some_iff.mp (hm u hu)
  rw [Array.getElem?_setIfInBounds]
  split
  · rename_i heq
    have hut : u = t := by cases u; cases t; cases heq; rfl
    rw [if_pos (heq ▸ hlt)]
    simp [hut]
  · rename_i hne
    have hut : u ≠ t := fun heq => hne (heq ▸ rfl)
    rw [hm u hu]
    simp [hut]

theorem Marks.congr {seen : Array Bool} {done done' : List TypeId} (hm : g.Marks seen done)
    (h : ∀ u, u ∈ done' ↔ u ∈ done) : g.Marks seen done' := by
  intro u hu
  rw [hm u hu, decide_eq_decide.mpr (h u)]

/-- **The walk.** What is found is the unfolding, each type where it came first. -/
theorem WellFormed.walk_eq (hg : g.WellFormed) {start done found : List TypeId}
    {seen : Array Bool} (whole : g.Unfolds start (done ++ trace)) (hw : g.Unfolds work trace)
    (hh : ∀ u ∈ trace, g.Has u) (hm : g.Marks seen done) (hf : found.reverse = firstBy id done) :
    g.walk seen found work = firstBy id (done ++ trace) := by
  fun_induction g.walk seen found work generalizing done trace with
  | case1 seen found =>
    cases hw
    rw [hf, List.append_nil]
  | case2 seen found t work unseen ih =>
    cases hw with
    | @cons _ _ above rest supers others =>
      have ht := hh t List.mem_cons_self
      have hnew : t ∉ done := by
        rw [hm t ht] at unseen
        simpa using unseen
      rw [List.append_cons] at whole ⊢
      refine ih whole (supers.append others) (fun u hu => hh u (List.mem_cons_of_mem _ hu))
        (hm.visit t) ?_
      rw [List.reverse_cons, hf, firstBy_append_of_notMem hnew]
      rfl
  | case3 seen found t work marked ih =>
    cases hw with
    | @cons _ _ above rest supers others =>
      have ht := hh t List.mem_cons_self
      have hold : t ∈ done := by
        rw [hm t ht] at marked
        simpa using marked
      -- all above a marked type has been visited
      have hall : ∀ u ∈ t :: above, u ∈ done := fun u hu =>
        hg.mem_of_repeated whole rfl hold (supers.mem_cons_iff.mp hu)
      rw [← List.cons_append, ← List.append_assoc] at whole ⊢
      refine ih whole others (fun u hu => hh u (List.mem_cons_of_mem _
        (List.mem_append_right _ hu))) (hm.congr fun u => ?_) ?_
      · rw [List.mem_append]
        exact ⟨fun hu => hu.elim id (hall u), .inl⟩
      · rw [firstBy_append_of_subset hall, hf]

/-! ## Lineages -/

theorem WellFormed.has_of_mem_unfolds (hg : g.WellFormed) (ht : g.Has t)
    (hw : g.Unfolds [t] trace) : ∀ u ∈ trace, g.Has u := by
  intro u hu
  obtain ⟨v, hv, h⟩ := hw.mem_iff.mp hu
  exact hg.has_of_isAbove (List.mem_singleton.mp hv ▸ ht) h

/-- **Lineages.** The lineage of a type is its unfolding, each type where it came first. -/
theorem WellFormed.lineage_eq (hg : g.WellFormed) (ht : g.Has t) (hw : g.Unfolds [t] trace) :
    g.lineage t = firstBy id trace := by
  have whole : g.Unfolds [t] ([] ++ trace) := hw
  exact hg.walk_eq whole hw (hg.has_of_mem_unfolds ht hw) g.marks_nil rfl

theorem WellFormed.mem_lineage_iff (hg : g.WellFormed) (ht : g.Has t) :
    u ∈ g.lineage t ↔ g.IsAbove u t := by
  obtain ⟨trace, hw⟩ := hg.exists_unfolds [t]
  rw [hg.lineage_eq ht hw, mem_firstBy_id, hw.mem_iff]
  simp

theorem WellFormed.nodup_lineage (hg : g.WellFormed) (ht : g.Has t) : (g.lineage t).Nodup := by
  obtain ⟨trace, hw⟩ := hg.exists_unfolds [t]
  rw [hg.lineage_eq ht hw]
  exact nodup_firstBy_id trace

/-- **Growth.** New types do not change the lineages of those that are there. -/
theorem WellFormed.lineage_growsTo (hg : g.WellFormed) (hg' : g'.WellFormed) (h : g.GrowsTo g')
    (ht : g.Has t) : g'.lineage t = g.lineage t := by
  obtain ⟨trace, hw⟩ := hg.exists_unfolds [t]
  rw [hg.lineage_eq ht hw, hg'.lineage_eq (h.has ht) (hw.growsTo h (hg.has_of_mem_unfolds ht hw))]

/-! ## Superclasses -/

/-- `u` is on the superclass chain of a type: the type itself, its superclass, and so on. -/
inductive OnChain (g : TypeGraph) (u : TypeId) : TypeId → Prop
  | here : OnChain g u u
  | up {t s : TypeId} (edge : g.superclass? t = some s) (chain : OnChain g u s) : OnChain g u t

theorem OnChain.isAbove (hc : g.OnChain u t) : g.IsAbove u t := by
  induction hc with
  | here => exact .refl g u
  | up edge _ ih => exact ih.up (mem_supertypes.mpr (.inl edge))

/-- The direct supertypes begin with the superclass. -/
theorem supertypes_of_superclass? {s : TypeId} (h : g.superclass? t = some s) :
    g.supertypes t = s :: g.interfaces t := by
  rw [supertypes_eq, h]
  rfl

/-- The unfolding goes up the superclass chain first. -/
theorem WellFormed.unfolds_split (hg : g.WellFormed) (hc : g.OnChain u t)
    (hw : g.Unfolds [t] trace) :
    ∃ before after, trace = before ++ u :: after ∧ ∀ v ∈ before, u.index < v.index := by
  induction hc generalizing trace with
  | here =>
    cases hw with
    | cons _ _ => exact ⟨[], _, rfl, nofun⟩
  | @up t s edge chain ih =>
    cases hw with
    | cons supers others =>
      cases others
      rw [supertypes_of_superclass? edge] at supers
      cases supers with
      | @cons _ _ above rest supers others =>
        obtain ⟨before, after, hsplit, hbefore⟩ := ih (.single supers)
        have hlt := hg.supertypes_older t s (mem_supertypes.mpr (.inl edge))
        have hle := hg.index_le_of_isAbove chain.isAbove
        refine ⟨t :: before, after ++ rest, ?_, List.forall_mem_cons.mpr ⟨by omega, hbefore⟩⟩
        rw [List.append_nil, ← List.cons_append, hsplit, List.append_assoc]
        rfl

/-- Before a type of the superclass chain come none that are above it. -/
theorem WellFormed.lineage_split (hg : g.WellFormed) (ht : g.Has t) (hc : g.OnChain u t) :
    ∃ before after, g.lineage t = before ++ u :: after ∧ ∀ v ∈ before, ¬ g.IsAbove v u := by
  obtain ⟨trace, hw⟩ := hg.exists_unfolds [t]
  obtain ⟨before, after, rfl, hbefore⟩ := hg.unfolds_split hc hw
  have hnew : u ∉ before := fun hu => Nat.lt_irrefl _ (hbefore u hu)
  rw [hg.lineage_eq ht hw, firstBy_append_of_notMem hnew]
  refine ⟨_, _, rfl, fun v hv habove => ?_⟩
  have hlt := hbefore v (mem_of_mem_firstBy hv)
  have hle := hg.index_le_of_isAbove habove
  omega

end TypeGraph

end Interop
