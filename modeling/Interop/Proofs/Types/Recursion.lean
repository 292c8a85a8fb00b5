import Interop.Proofs.Types.Lineage

/-!
# Recursions over the types

Distances and lineages can also be found by recursion, from a type to what it names. A recursion is
given how deep it may go and has no answer if it would have to go deeper. Since every type names
older ones, it never goes deeper than there are older types, and its answer is that of the pass over
the types and of the walk.

* `TypeGraph.measure`: the distance from below, with the distances found before.
  `TypeGraph.WellFormed.measure_eq`: it ends with the distance.
* `TypeGraph.collect`: the types above one type, with those found before.
  `TypeGraph.WellFormed.collect_eq`: it ends with the lineage.
-/

namespace Interop

namespace TypeGraph

variable {g : TypeGraph} {target t : TypeId} {ts : List TypeId} {depth : Nat}

/-! ## Distances -/

/-- The distance of one more supertype, where the best one so far is known. -/
def nearer (find : TypeMap Nat → Option TypeId → Option (Nat × TypeMap Nat))
    (known : Nat × TypeMap Nat) (u : TypeId) : Option (Nat × TypeMap Nat) :=
  (find known.2 (some u)).map fun found => (min known.1 (stepUp found.1), found.2)

/-- The distance of a type by that of its superclass and then those of its interfaces. What is found
for a type is kept in `memo`, and a distance that is kept already stays. -/
def measure (g : TypeGraph) (target : TypeId) :
    Nat → TypeMap Nat → Option TypeId → Option (Nat × TypeMap Nat)
  | _, memo, none => some (unreachable, memo)
  | 0, _, some _ => none
  | depth + 1, memo, some t =>
    if t = target then some (0, memo)
    else
      match memo.get? t with
      | some d => some (d, memo)
      | none => do
        let (d, memo) ← measure g target depth memo (g.superclass? t)
        let (best, memo) ←
          (g.interfaces t).foldlM (nearer (measure g target depth)) (stepUp d, memo)
        let kept := (memo.get? t).getD best
        return (kept, memo.insert t kept)

/-- The distances in a memo are right. -/
def Remembers (g : TypeGraph) (target : TypeId) (memo : TypeMap Nat) : Prop :=
  ∀ t d, memo.get? t = some d → d = g.distance target (some t)

theorem remembers_empty (g : TypeGraph) (target : TypeId) : g.Remembers target .empty := nofun

theorem Remembers.insert {memo : TypeMap Nat} (h : g.Remembers target memo) (t : TypeId) :
    g.Remembers target (memo.insert t (g.distance target (some t))) := by
  intro u d hd
  rw [TypeMap.get?_insert] at hd
  split at hd
  · rename_i htu
    cases hd
    rw [htu]
  · exact h u d hd

/-- What is in `memo'` and not in `memo` belongs to one of the first `count` types. -/
def Adds (count : Nat) (memo memo' : TypeMap Nat) : Prop :=
  ∀ t, memo.get? t = none → (memo'.get? t).isSome → t.index < count

section Adds

variable {memo memo' memo'' : TypeMap Nat} {count more : Nat}

theorem Adds.refl (count : Nat) (memo : TypeMap Nat) : Adds count memo memo := by
  intro t hnone hsome
  simp [hnone] at hsome

theorem Adds.trans (h : Adds count memo memo') (h' : Adds count memo' memo'') :
    Adds count memo memo'' := by
  intro t hnone hsome
  by_cases ht : memo'.get? t = none
  · exact h' t ht hsome
  · exact h t hnone (Option.isSome_iff_ne_none.mpr ht)

theorem Adds.mono (h : Adds count memo memo') (hle : count ≤ more) : Adds more memo memo' :=
  fun t hnone hsome => Nat.lt_of_lt_of_le (h t hnone hsome) hle

theorem adds_insert (ht : t.index < count) (memo : TypeMap Nat) (d : Nat) :
    Adds count memo (memo.insert t d) := by
  intro u hnone hsome
  rw [TypeMap.get?_insert] at hsome
  split at hsome
  · rename_i htu
    rw [← htu]
    exact ht
  · simp [hnone] at hsome

end Adds

/-- A distance by that of the superclass and those of the interfaces. -/
theorem WellFormed.distance_eq_superclass (hg : g.WellFormed) (ht : t ≠ target) :
    g.distance target (some t) =
      (g.interfaces t).foldl (fun best u => min best (stepUp (g.distance target (some u))))
        (stepUp (g.distance target (g.superclass? t))) := by
  rw [hg.distance_eq, if_neg ht, supertypes_eq, List.foldl_append]
  cases g.superclass? t with
  | none => rfl
  | some s =>
    have hcap : stepUp (g.distance target (some s)) ≤ unreachable := Nat.min_le_right _ _
    show List.foldl _ (min unreachable (stepUp _)) _ = _
    rw [Nat.min_eq_right hcap]

/-- The recursion ends for `candidate` with its distance. What it keeps is right, and belongs to one
of the first `depth` types. -/
def Measured (g : TypeGraph) (target : TypeId) (depth : Nat) (candidate : Option TypeId) : Prop :=
  ∀ memo, g.Remembers target memo → ∃ memo',
    g.measure target depth memo candidate = some (g.distance target candidate, memo') ∧
      g.Remembers target memo' ∧ Adds depth memo memo'

/-- Where the recursion ends for each type of a list, it finds the nearest. -/
theorem foldlM_nearer (h : ∀ u ∈ ts, g.Measured target depth (some u)) (best : Nat)
    {memo : TypeMap Nat} (hm : g.Remembers target memo) :
    ∃ memo', ts.foldlM (nearer (g.measure target depth)) (best, memo) =
        some (ts.foldl (fun best u => min best (stepUp (g.distance target (some u)))) best, memo') ∧
      g.Remembers target memo' ∧ Adds depth memo memo' := by
  induction ts generalizing best memo with
  | nil => exact ⟨memo, rfl, hm, .refl _ _⟩
  | cons u ts ih =>
    obtain ⟨memo₁, hu, hm₁, hadds₁⟩ := h u List.mem_cons_self memo hm
    obtain ⟨memo₂, hts, hm₂, hadds₂⟩ := ih (fun v hv => h v (List.mem_cons_of_mem _ hv))
      (min best (stepUp (g.distance target (some u)))) hm₁
    refine ⟨memo₂, ?_, hm₂, hadds₁.trans hadds₂⟩
    rw [List.foldlM_cons, nearer, hu]
    exact hts

/-- **Distances.** The recursion ends for every type, no deeper than there are older types. -/
theorem WellFormed.measure_eq (hg : g.WellFormed) (target : TypeId) (ht : t.index < depth) :
    g.Measured target depth (some t) := by
  induction depth generalizing t with
  | zero => exact absurd ht (Nat.not_lt_zero _)
  | succ depth ih =>
    intro memo hm
    -- supertypes are older, so they need one level less
    have supers : ∀ u ∈ g.supertypes t, g.Measured target depth (some u) := fun u hu =>
      ih (Nat.lt_of_lt_of_le (hg.supertypes_older t u hu) (Nat.le_of_lt_succ ht))
    unfold measure
    split
    · rename_i heq
      refine ⟨memo, ?_, hm, .refl _ _⟩
      rw [hg.distance_eq, if_pos heq]
    rename_i hne
    cases hget : memo.get? t with
    | some d => exact ⟨memo, by rw [hm t d hget], hm, .refl _ _⟩
    | none =>
      have super : g.Measured target depth (g.superclass? t) := by
        cases hs : g.superclass? t with
        | none => exact fun memo hm => ⟨memo, by rw [measure]; rfl, hm, .refl _ _⟩
        | some s => exact supers s (mem_supertypes.mpr (.inl hs))
      obtain ⟨memo₁, hsuper, hm₁, hadds₁⟩ := super memo hm
      obtain ⟨memo₂, hinterfaces, hm₂, hadds₂⟩ := foldlM_nearer
        (fun u hu => supers u (mem_supertypes.mpr (.inr hu)))
        (stepUp (g.distance target (g.superclass? t))) hm₁
      rw [← hg.distance_eq_superclass hne] at hinterfaces
      have hkept : (memo₂.get? t).getD (g.distance target (some t)) =
          g.distance target (some t) := by
        cases hget : memo₂.get? t with
        | none => rfl
        | some d => exact hm₂ t d hget
      refine ⟨memo₂.insert t (g.distance target (some t)), ?_, hm₂.insert t,
        ((hadds₁.trans hadds₂).mono (Nat.le_succ depth)).trans (adds_insert ht _ _)⟩
      simp only [hsuper, hinterfaces, hkept, Option.bind_eq_bind, Option.bind_some]
      rfl

/-! ## Lineages -/

/-- The types found so far, and then `t` and all above it that are new: the superclass and what is
above it before the interfaces. -/
def collect (g : TypeGraph) : Nat → List TypeId → TypeId → Option (List TypeId)
  | depth, found, t =>
    if t ∈ found then some found
    else
      match depth with
      | 0 => none
      | depth + 1 => (g.supertypes t).foldlM (collect g depth) (found ++ [t])

/-- The recursion ends for `t` wherever it comes in an unfolding, and finds what is new there. -/
def Collected (g : TypeGraph) (depth : Nat) (t : TypeId) : Prop :=
  ∀ {start done trace rest : List TypeId}, g.Unfolds start (done ++ (trace ++ rest)) →
    g.Unfolds [t] trace → g.collect depth (firstBy id done) t = some (firstBy id (done ++ trace))

theorem foldlM_collect (h : ∀ u ∈ ts, g.Collected depth u)
    {start done trace rest : List TypeId} (whole : g.Unfolds start (done ++ (trace ++ rest)))
    (hw : g.Unfolds ts trace) :
    ts.foldlM (g.collect depth) (firstBy id done) = some (firstBy id (done ++ trace)) := by
  induction hw generalizing done with
  | nil =>
    rw [List.append_nil]
    rfl
  | @cons t work above others supers hothers _ ih =>
    have whole' : g.Unfolds start (done ++ ((t :: above) ++ (others ++ rest))) := by
      rw [← List.append_assoc (t :: above)]
      exact whole
    have hfirst := h t List.mem_cons_self whole' (.single supers)
    rw [← List.append_assoc] at whole'
    rw [List.foldlM_cons, hfirst, Option.bind_eq_bind, Option.bind_some,
      ih (fun u hu => h u (List.mem_cons_of_mem _ hu)) whole', ← List.cons_append,
      List.append_assoc]

/-- **Lineages.** The recursion ends for every type, no deeper than there are older types. -/
theorem WellFormed.collected (hg : g.WellFormed) (ht : t.index < depth) :
    g.Collected depth t := by
  induction depth generalizing t with
  | zero => exact absurd ht (Nat.not_lt_zero _)
  | succ depth ih =>
    intro start done trace rest whole hw
    cases hw with
    | @cons _ _ above others supers hothers =>
      cases hothers
      rw [List.append_nil] at whole ⊢
      rw [collect]
      split
      · -- all above a type that was found has been found
        rename_i hfound
        rw [mem_firstBy_id] at hfound
        have hall : ∀ u ∈ t :: above, u ∈ done := fun u hu =>
          hg.mem_of_repeated whole rfl hfound (supers.mem_cons_iff.mp hu)
        rw [firstBy_append_of_subset hall]
      · rename_i hnew
        rw [mem_firstBy_id] at hnew
        have hsupers : ∀ u ∈ g.supertypes t, g.Collected depth u := fun u hu =>
          ih (Nat.lt_of_lt_of_le (hg.supertypes_older t u hu) (Nat.le_of_lt_succ ht))
        have hdone : firstBy id done ++ [t] = firstBy id (done ++ [t]) := by
          rw [firstBy_append_of_notMem hnew]
          rfl
        rw [List.cons_append, List.append_cons] at whole
        rw [hdone, foldlM_collect hsupers whole supers, ← List.append_cons]

theorem WellFormed.collect_eq (hg : g.WellFormed) (ht : g.Has t) (hd : t.index < depth) :
    g.collect depth [] t = some (g.lineage t) := by
  obtain ⟨trace, hw⟩ := hg.exists_unfolds [t]
  have whole : g.Unfolds [t] ([] ++ (trace ++ [])) := by rwa [List.append_nil, List.nil_append]
  rw [hg.lineage_eq ht hw]
  exact hg.collected hd whole hw

end TypeGraph

end Interop
