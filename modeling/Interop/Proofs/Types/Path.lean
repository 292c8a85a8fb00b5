import Interop.Proofs.Types.Distance
import Mathlib.Data.Nat.Find
import Mathlib.Order.Bounds.Defs

/-!
# Distances are shortest paths

A path goes up from a type to a target, each edge from a type to one of its direct supertypes. The
distance is the length of a shortest path, as long as that is below the cap.

* `TypeGraph.Path`: the paths, by their lengths. `TypeGraph.IsAbove`: there is one.
* `TypeGraph.WellFormed.distance_le_of_path`: no path is shorter than the distance.
* `TypeGraph.WellFormed.path_of_distance_lt`: a distance below the cap is the length of a path.
* `TypeGraph.IsDistance`: the distance by the paths. `TypeGraph.WellFormed.isDistance`: the pass
  over the types finds it.
-/

namespace Interop

/-! ## The nearest of several types -/

section Nearest

variable {α : Type} {f : α → Nat} {xs : List α} {bound : Nat}

theorem foldl_min_le_start (f : α → Nat) (xs : List α) (bound : Nat) :
    xs.foldl (fun best a => min best (f a)) bound ≤ bound := by
  induction xs generalizing bound with
  | nil => exact Nat.le_refl _
  | cons a xs ih => exact Nat.le_trans (ih _) (Nat.min_le_left _ _)

theorem foldl_min_le_of_mem {a : α} (ha : a ∈ xs) :
    xs.foldl (fun best a => min best (f a)) bound ≤ f a := by
  induction xs generalizing bound with
  | nil => cases ha
  | cons b xs ih =>
    rw [List.foldl_cons]
    rcases List.mem_cons.mp ha with rfl | ha
    · exact Nat.le_trans (foldl_min_le_start f xs _) (Nat.min_le_right _ _)
    · exact ih ha

/-- The least value is the bound, or one of the items has it. -/
theorem foldl_min_attained (f : α → Nat) (xs : List α) (bound : Nat) :
    xs.foldl (fun best a => min best (f a)) bound = bound ∨
      ∃ a ∈ xs, xs.foldl (fun best a => min best (f a)) bound = f a := by
  induction xs generalizing bound with
  | nil => exact .inl rfl
  | cons b xs ih =>
    rw [List.foldl_cons]
    rcases ih (min bound (f b)) with heq | ⟨a, ha, heq⟩
    · rw [heq]
      rcases Nat.le_total bound (f b) with hle | hle
      · exact .inl (Nat.min_eq_left hle)
      · exact .inr ⟨b, List.mem_cons_self, Nat.min_eq_right hle⟩
    · exact .inr ⟨a, List.mem_cons_of_mem _ ha, heq⟩

end Nearest

namespace TypeGraph

/-! ## Paths -/

/-- There is a path of so many edges from a type up to `target`. -/
inductive Path (g : TypeGraph) (target : TypeId) : TypeId → Nat → Prop
  | here : Path g target target 0
  | up {t parent : TypeId} {n : Nat} (edge : parent ∈ g.supertypes t)
      (path : Path g target parent n) : Path g target t (n + 1)

/-- `u` is `t` itself or one of its supertypes, at any height. -/
def IsAbove (g : TypeGraph) (u t : TypeId) : Prop := ∃ n, g.Path u t n

variable {g g' : TypeGraph} {target t u v : TypeId} {n : Nat}

/-- The superclass comes before the interfaces. -/
theorem supertypes_eq (g : TypeGraph) (t : TypeId) :
    g.supertypes t = (g.superclass? t).toList ++ g.interfaces t := by
  unfold supertypes superclass? interfaces
  cases g.descriptor? t <;> rfl

/-- An edge goes to the superclass or to an interface. -/
theorem mem_supertypes : u ∈ g.supertypes t ↔ g.superclass? t = some u ∨ u ∈ g.interfaces t := by
  rw [supertypes_eq, List.mem_append, Option.mem_toList]

theorem IsAbove.refl (g : TypeGraph) (t : TypeId) : g.IsAbove t t := ⟨0, .here⟩

theorem IsAbove.up (edge : v ∈ g.supertypes t) (h : g.IsAbove u v) : g.IsAbove u t := by
  obtain ⟨n, path⟩ := h
  exact ⟨n + 1, .up edge path⟩

theorem IsAbove.trans (h : g.IsAbove u v) (h' : g.IsAbove v t) : g.IsAbove u t := by
  obtain ⟨n, path⟩ := h'
  induction path with
  | here => exact h
  | up edge _ ih => exact ih.up edge

/-- What is above a type is the type itself or above one of its direct supertypes. -/
theorem isAbove_iff : g.IsAbove u t ↔ u = t ∨ ∃ v ∈ g.supertypes t, g.IsAbove u v := by
  constructor
  · rintro ⟨n, path⟩
    cases path with
    | here => exact .inl rfl
    | up edge path => exact .inr ⟨_, edge, _, path⟩
  · rintro (rfl | ⟨v, edge, h⟩)
    · exact .refl g u
    · exact h.up edge

/-- Supertypes are older. -/
theorem WellFormed.index_le_of_isAbove (hg : g.WellFormed) (h : g.IsAbove u t) :
    u.index ≤ t.index := by
  obtain ⟨n, path⟩ := h
  induction path with
  | here => exact Nat.le_refl _
  | up edge _ ih => exact Nat.le_of_lt (Nat.lt_of_le_of_lt ih (hg.supertypes_older _ _ edge))

theorem WellFormed.has_of_isAbove (hg : g.WellFormed) (ht : g.Has t) (h : g.IsAbove u t) :
    g.Has u :=
  Nat.lt_of_le_of_lt (hg.index_le_of_isAbove h) ht

/-! ## Distances -/

theorem admits_iff : g.admits u t = true ↔ g.distance u (some t) < unreachable := by
  simp [admits]

theorem WellFormed.distance_le_unreachable (hg : g.WellFormed) (target t : TypeId) :
    g.distance target (some t) ≤ unreachable := by
  rw [hg.distance_eq]
  split
  · exact Nat.zero_le _
  · exact foldl_min_le_start _ _ _

/-- A type is at most one edge further than each of its direct supertypes. -/
theorem WellFormed.distance_le_of_mem (hg : g.WellFormed) (target : TypeId)
    (hu : u ∈ g.supertypes t) :
    g.distance target (some t) ≤ stepUp (g.distance target (some u)) := by
  rw [hg.distance_eq target t]
  split
  · exact Nat.zero_le _
  · exact foldl_min_le_of_mem (f := fun p => stepUp (g.distance target (some p))) hu

/-- **Paths.** No path is shorter than the distance. -/
theorem WellFormed.distance_le_of_path (hg : g.WellFormed) (path : g.Path target t n) :
    g.distance target (some t) ≤ n := by
  induction path with
  | here => exact Nat.le_of_eq ((hg.distance_eq target target).trans (if_pos rfl))
  | up edge _ ih =>
    have hle := hg.distance_le_of_mem target edge
    unfold stepUp at hle
    omega

/-- **A shortest path.** A distance below the cap is the length of a path. Each cut on the way up
would have left the cap itself, so there was none. -/
theorem WellFormed.path_of_distance_lt (hg : g.WellFormed)
    (hd : g.distance target (some t) < unreachable) :
    g.Path target t (g.distance target (some t)) := by
  -- the supertypes of a type come before it
  induction hn : t.index using Nat.strongRecOn generalizing t with
  | _ n ih =>
    subst hn
    rw [hg.distance_eq target t] at hd ⊢
    split
    · rename_i ht
      rw [ht]
      exact .here
    · rename_i ht
      rw [if_neg ht] at hd
      rcases foldl_min_attained (fun p => stepUp (g.distance target (some p))) (g.supertypes t)
        unreachable with heq | ⟨p, hp, heq⟩
      · omega
      · rw [heq] at hd ⊢
        have hlt : g.distance target (some p) + 1 < unreachable := by
          unfold stepUp at hd
          omega
        have hstep : stepUp (g.distance target (some p)) = g.distance target (some p) + 1 :=
          Nat.min_eq_left (Nat.le_of_lt hlt)
        rw [hstep]
        exact .up hp (ih p.index (hg.supertypes_older t p hp) (by omega) rfl)

/-- The distance is the length of a shortest path, up to the cap. -/
theorem WellFormed.distance_of_isLeast (hg : g.WellFormed)
    (h : IsLeast {n | g.Path target t n} n) :
    g.distance target (some t) = min unreachable n := by
  have hle := hg.distance_le_of_path h.1
  have hcap := hg.distance_le_unreachable target t
  by_cases hd : g.distance target (some t) < unreachable
  · have hge := h.2 (hg.path_of_distance_lt hd)
    omega
  · omega

theorem WellFormed.distance_of_no_path (hg : g.WellFormed) (h : ¬ g.IsAbove target t) :
    g.distance target (some t) = unreachable := by
  have hcap := hg.distance_le_unreachable target t
  by_contra hne
  exact h ⟨_, hg.path_of_distance_lt (by omega)⟩

/-- What the distance of a type should be: the length of a shortest path up to the target, cut at
the cap, or the cap if there is no path. -/
inductive IsDistance (g : TypeGraph) (target t : TypeId) : Nat → Prop
  | shortest {n : Nat} (h : IsLeast {n | g.Path target t n} n) :
      IsDistance g target t (min unreachable n)
  | apart (h : ¬ g.IsAbove target t) : IsDistance g target t unreachable

/-- **Distances.** The distance of a type is what the paths say. -/
theorem WellFormed.isDistance (hg : g.WellFormed) (target t : TypeId) :
    g.IsDistance target t (g.distance target (some t)) := by
  by_cases h : g.IsAbove target t
  · classical
    have least : IsLeast {n | g.Path target t n} (Nat.find h) :=
      ⟨Nat.find_spec h, fun _ path => Nat.find_min' h path⟩
    rw [hg.distance_of_isLeast least]
    exact .shortest least
  · rw [hg.distance_of_no_path h]
    exact .apart h

end TypeGraph

end Interop
