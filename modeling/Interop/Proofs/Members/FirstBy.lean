import Interop.Members.Catalog
import Mathlib.Data.List.Basic
import Mathlib.Data.List.Induction

/-!
# The first item of each key

* `IsFirst`, `IsLast`: the first and the last item with a property.
* `firstBy_append`: of the items that come later, those of new keys remain.
* `filter_firstBy`: whether items are selected by their keys before or after makes no difference.
* `keptFirst_firstBy`: read in order, an item remains just if its key is new.
* `mem_firstBy_iff`: an item remains just if it is the first one of its key.
* `pairwise_firstBy`: the keys that remain are distinct.
* `mem_firstBy_flatMap_iff`: of lists that are joined, an item comes from the first list with an
  item of its key.
-/

namespace Interop

variable {α β γ : Type} [DecidableEq β] {key : α → β} {a b : α} {xs ys : List α} {P : α → Prop}

/-! ## First and last items -/

/-- `a` is the first item of `xs` with the property. -/
def IsFirst (P : α → Prop) (xs : List α) (a : α) : Prop :=
  ∃ before after, xs = before ++ a :: after ∧ P a ∧ ∀ b ∈ before, ¬ P b

/-- `a` is the last item of `xs` with the property. -/
def IsLast (P : α → Prop) (xs : List α) (a : α) : Prop :=
  ∃ before after, xs = before ++ a :: after ∧ P a ∧ ∀ b ∈ after, ¬ P b

theorem find?_eq_some_iff_isFirst [DecidablePred P] :
    xs.find? (P ·) = some a ↔ IsFirst P xs a := by
  simp only [List.find?_eq_some_iff_append, IsFirst, decide_eq_true_eq, Bool.not_eq_eq_eq_not,
    Bool.not_true, decide_eq_false_iff_not]
  constructor
  · rintro ⟨ha, before, after, hsplit, hb⟩
    exact ⟨before, after, hsplit, ha, hb⟩
  · rintro ⟨before, after, hsplit, ha, hb⟩
    exact ⟨ha, before, after, hsplit, hb⟩

theorem isFirst_reverse : IsFirst P xs.reverse a ↔ IsLast P xs a := by
  constructor
  · rintro ⟨before, after, hsplit, ha, hb⟩
    refine ⟨after.reverse, before.reverse, ?_, ha, fun b hmem => hb b (List.mem_reverse.mp hmem)⟩
    simpa using congrArg List.reverse hsplit
  · rintro ⟨before, after, rfl, ha, hb⟩
    refine ⟨after.reverse, before.reverse, by simp, ha, fun b hmem => ?_⟩
    exact hb b (List.mem_reverse.mp hmem)

theorem IsFirst.mem (h : IsFirst P xs a) : a ∈ xs := by
  obtain ⟨before, after, rfl, -, -⟩ := h
  exact List.mem_append_right _ List.mem_cons_self

theorem IsFirst.prop (h : IsFirst P xs a) : P a := by
  obtain ⟨-, -, -, ha, -⟩ := h
  exact ha

theorem IsFirst.unique (h : IsFirst P xs a) (h' : IsFirst P xs b) : a = b := by
  classical
  rw [← find?_eq_some_iff_isFirst] at h h'
  exact Option.some.inj (h.symm.trans h')

theorem exists_isFirst (ha : a ∈ xs) (hp : P a) : ∃ b, IsFirst P xs b := by
  classical
  have hsome : (xs.find? (P ·)).isSome := List.find?_isSome.mpr ⟨a, ha, by simpa using hp⟩
  obtain ⟨b, hb⟩ := Option.isSome_iff_exists.mp hsome
  exact ⟨b, find?_eq_some_iff_isFirst.mp hb⟩

theorem isFirst_cons : IsFirst P (b :: xs) a ↔ (b = a ∧ P a) ∨ (¬ P b ∧ IsFirst P xs a) := by
  classical
  rw [← find?_eq_some_iff_isFirst, ← find?_eq_some_iff_isFirst, List.find?_cons]
  by_cases hb : P b
  · simp only [hb, decide_true, Option.some.injEq, not_true_eq_false, false_and, or_false]
    exact ⟨fun heq => ⟨heq, heq ▸ hb⟩, And.left⟩
  · simp only [hb, decide_false, not_false_eq_true, true_and]
    refine ⟨.inr, ?_⟩
    rintro (⟨rfl, ha⟩ | h)
    · exact absurd ha hb
    · exact h

/-! ## One item of each key -/

theorem firstBy_append (key : α → β) (xs ys : List α) :
    firstBy key (xs ++ ys) =
      firstBy key xs ++ (firstBy key ys).filter fun b => key b ∉ xs.map key := by
  induction xs with
  | nil => simp [firstBy]
  | cons a xs ih =>
    rw [List.cons_append, firstBy, ih, firstBy, List.filter_append, List.filter_filter,
      List.cons_append]
    congr 3
    funext b
    simp [List.mem_cons]

theorem firstBy_sublist (key : α → β) (xs : List α) : (firstBy key xs).Sublist xs := by
  induction xs with
  | nil => exact .slnil
  | cons a xs ih => exact (List.filter_sublist.trans ih).cons_cons a

theorem mem_of_mem_firstBy (ha : a ∈ firstBy key xs) : a ∈ xs :=
  (firstBy_sublist key xs).subset ha

/-- Items that are left out do not matter if their keys are left out with them. -/
theorem filter_firstBy {p : α → Bool} (hp : ∀ a b, key a = key b → p a = p b) :
    (firstBy key xs).filter p = firstBy key (xs.filter p) := by
  induction xs with
  | nil => rfl
  | cons a xs ih =>
    cases ha : p a with
    | true =>
      rw [firstBy, List.filter_cons_of_pos ha, List.filter_cons_of_pos ha, firstBy, ← ih,
        List.filter_comm]
    | false =>
      have hne : ∀ b, p b = true → key b ≠ key a := by
        intro b hb heq
        rw [hp b a heq, ha] at hb
        cases hb
      rw [firstBy, List.filter_cons_of_neg (by simp [ha]), List.filter_cons_of_neg (by simp [ha]),
        List.filter_filter, ← ih]
      refine List.filter_congr fun b _ => ?_
      cases hb : p b with
      | false => rfl
      | true => simpa using hne b hb

/-- Keys that tell the same items apart are equally good. -/
theorem firstBy_congr {δ : Type} [DecidableEq δ] {key' : α → δ}
    (h : ∀ a ∈ xs, ∀ b ∈ xs, key a = key b ↔ key' a = key' b) :
    firstBy key xs = firstBy key' xs := by
  induction xs with
  | nil => rfl
  | cons a xs ih =>
    rw [firstBy, firstBy, ih fun b hb c hc =>
      h b (List.mem_cons_of_mem _ hb) c (List.mem_cons_of_mem _ hc)]
    congr 1
    refine List.filter_congr fun b hb => ?_
    have hb := List.mem_cons_of_mem a (mem_of_mem_firstBy hb)
    simp only [ne_eq, h b hb a List.mem_cons_self]

/-- `kept` is what remains of a list that is read in order, if an item is kept just if no item
before it has its key. -/
inductive KeptFirst (key : α → β) : List α → List α → Prop
  | nil : KeptFirst key [] []
  | fresh {xs kept : List α} {a : α} (h : KeptFirst key xs kept)
      (hfresh : ∀ b ∈ xs, key b ≠ key a) : KeptFirst key (xs ++ [a]) (kept ++ [a])
  | again {xs kept : List α} {a b : α} (h : KeptFirst key xs kept) (hb : b ∈ xs)
      (heq : key b = key a) : KeptFirst key (xs ++ [a]) kept

theorem keptFirst_firstBy (key : α → β) (xs : List α) : KeptFirst key xs (firstBy key xs) := by
  induction xs using List.reverseRecOn with
  | nil => exact .nil
  | append_singleton xs a ih =>
    rw [firstBy_append]
    by_cases hmem : key a ∈ xs.map key
    · obtain ⟨b, hb, heq⟩ := List.mem_map.mp hmem
      rw [List.filter_eq_nil_iff.mpr (by simpa [firstBy] using hmem), List.append_nil]
      exact .again ih hb heq
    · rw [List.filter_eq_self.mpr (by simpa [firstBy] using hmem)]
      exact .fresh ih fun b hb heq => hmem (heq ▸ List.mem_map_of_mem hb)

theorem firstBy_eq_nil_iff : firstBy key xs = [] ↔ xs = [] := by
  cases xs <;> simp [firstBy]

/-- Each key that occurs is there. -/
theorem exists_mem_firstBy (ha : a ∈ xs) : ∃ b ∈ firstBy key xs, key b = key a := by
  induction xs with
  | nil => cases ha
  | cons c xs ih =>
    rcases List.mem_cons.mp ha with rfl | ha
    · exact ⟨a, List.mem_cons_self, rfl⟩
    · obtain ⟨b, hb, heq⟩ := ih ha
      by_cases hc : key b = key c
      · exact ⟨c, List.mem_cons_self, hc ▸ heq⟩
      · exact ⟨b, List.mem_cons_of_mem _ (List.mem_filter.mpr ⟨hb, by simpa using hc⟩), heq⟩

@[simp] theorem mem_firstBy_id {x : β} {xs : List β} : x ∈ firstBy id xs ↔ x ∈ xs := by
  refine ⟨mem_of_mem_firstBy, fun hx => ?_⟩
  obtain ⟨y, hy, heq⟩ : ∃ y ∈ firstBy id xs, id y = id x := exists_mem_firstBy hx
  exact (show y = x from heq) ▸ hy

/-- **First items.** An item remains just if it is the first one of its key. -/
theorem mem_firstBy_iff : a ∈ firstBy key xs ↔ IsFirst (fun b => key b = key a) xs a := by
  induction xs with
  | nil =>
    refine ⟨nofun, fun h => ?_⟩
    cases h.mem
  | cons b xs ih =>
    rw [firstBy, List.mem_cons, List.mem_filter, ih, isFirst_cons]
    simp only [decide_eq_true_eq, and_true, ne_comm (a := key a), and_comm (b := key b ≠ key a),
      eq_comm (a := a)]

theorem eq_of_mem_firstBy (ha : a ∈ firstBy key xs) (hb : b ∈ firstBy key xs)
    (hk : key a = key b) : a = b := by
  have hfirst := mem_firstBy_iff.mp ha
  rw [hk] at hfirst
  exact hfirst.unique (mem_firstBy_iff.mp hb)

/-- **Keys.** No two items have the same key. -/
theorem pairwise_firstBy (key : α → β) (xs : List α) :
    (firstBy key xs).Pairwise fun a b => key a ≠ key b := by
  induction xs with
  | nil => exact .nil
  | cons a xs ih =>
    refine .cons (fun b hb => ?_) (ih.filter _)
    have hne : key b ≠ key a := by simpa using (List.mem_filter.mp hb).2
    exact hne.symm

/-- Where keys are distinct, there is one item of a key. -/
theorem filter_key_eq_singleton (h : xs.Pairwise fun a b => key a ≠ key b) (ha : a ∈ xs) :
    xs.filter (key · = key a) = [a] := by
  induction h with
  | nil => cases ha
  | @cons b xs hb _ ih =>
    rcases List.mem_cons.mp ha with rfl | ha
    · rw [List.filter_cons_of_pos (by simp), List.filter_eq_nil_iff.mpr]
      exact fun c hc => by simpa using (hb c hc).symm
    · rw [List.filter_cons_of_neg (by simpa using hb a ha)]
      exact ih ha

theorem nodup_firstBy_id (xs : List β) : (firstBy id xs).Nodup := pairwise_firstBy id xs

/-- The first occurrences, in their order. -/
theorem firstBy_id_eq_eraseDups (xs : List β) : firstBy id xs = xs.eraseDups := by
  induction hn : xs.length using Nat.strongRecOn generalizing xs with
  | _ n ih =>
    subst hn
    cases xs with
    | nil => rfl
    | cons a xs =>
      have hlt : (xs.filter fun b => !b == a).length < (a :: xs).length :=
        Nat.lt_succ_of_le (List.length_filter_le _ _)
      rw [List.eraseDups_cons, ← ih _ hlt _ rfl, ← filter_firstBy, firstBy]
      · congr 2
        funext b
        rw [Bool.eq_iff_iff]
        simp
      · rintro b c rfl
        rfl

/-- Items that were there before do not count. -/
theorem firstBy_append_of_subset {xs ys : List β} (h : ∀ y ∈ ys, y ∈ xs) :
    firstBy id (xs ++ ys) = firstBy id xs := by
  have hnone : (firstBy id ys).filter (fun b => id b ∉ xs.map id) = [] := by
    refine List.filter_eq_nil_iff.mpr fun y hy => ?_
    simpa using h y (mem_of_mem_firstBy hy)
  rw [firstBy_append, hnone, List.append_nil]

theorem firstBy_append_of_notMem {x : β} {xs : List β} (h : x ∉ xs) (ys : List β) :
    firstBy id (xs ++ x :: ys) =
      firstBy id xs ++ x :: ((firstBy id ys).filter (· ≠ x)).filter (· ∉ xs) := by
  rw [firstBy_append, firstBy, List.filter_cons_of_pos (by simpa using h)]
  simp

/-- `a` is the first item of its key that `own x` has, and `x` is the first of `xs` that has an item
of this key. -/
def ReportedFrom (own : γ → List α) (key : α → β) (xs : List γ) (x : γ) (a : α) : Prop :=
  ∃ before after, xs = before ++ x :: after ∧ a ∈ firstBy key (own x) ∧
    ∀ y ∈ before, ∀ b ∈ own y, key b ≠ key a

section Lists

variable {own : γ → List α} {xs : List γ} {x y : γ}

theorem reportedFrom_cons :
    ReportedFrom own key (y :: xs) x a ↔
      (x = y ∧ a ∈ firstBy key (own y)) ∨
        (ReportedFrom own key xs x a ∧ ∀ b ∈ own y, key b ≠ key a) := by
  constructor
  · rintro ⟨before, after, hsplit, ha, hfirst⟩
    cases before with
    | nil =>
      cases hsplit
      exact .inl ⟨rfl, ha⟩
    | cons z before =>
      cases hsplit
      exact .inr ⟨⟨before, after, rfl, ha, fun z hz => hfirst z (List.mem_cons_of_mem _ hz)⟩,
        hfirst y List.mem_cons_self⟩
  · rintro (⟨rfl, ha⟩ | ⟨⟨before, after, rfl, ha, hfirst⟩, hy⟩)
    · exact ⟨[], xs, rfl, ha, nofun⟩
    · exact ⟨y :: before, after, rfl, ha, List.forall_mem_cons.mpr ⟨hy, hfirst⟩⟩

/-- **Joined lists.** An item remains just if it is the first of its key in one of the lists, and no
list before that has an item of this key. -/
theorem mem_firstBy_flatMap_iff :
    a ∈ firstBy key (xs.flatMap own) ↔ ∃ x, ReportedFrom own key xs x a := by
  induction xs with
  | nil =>
    refine ⟨nofun, ?_⟩
    rintro ⟨x, before, after, hsplit, -⟩
    simp at hsplit
  | cons y xs ih =>
    have hfresh : key a ∉ (own y).map key ↔ ∀ b ∈ own y, key b ≠ key a := by simp
    simp only [List.flatMap_cons, firstBy_append, List.mem_append, List.mem_filter,
      decide_eq_true_eq, ih, hfresh, reportedFrom_cons]
    constructor
    · rintro (ha | ⟨⟨x, hx⟩, hy⟩)
      · exact ⟨y, .inl ⟨rfl, ha⟩⟩
      · exact ⟨x, .inr ⟨hx, hy⟩⟩
    · rintro ⟨x, ⟨rfl, ha⟩ | ⟨hx, hy⟩⟩
      · exact .inl ha
      · exact .inr ⟨⟨x, hx⟩, hy⟩

end Lists

end Interop
