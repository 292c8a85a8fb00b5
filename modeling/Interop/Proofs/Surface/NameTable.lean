import Interop.Proofs.Text.Order
import Interop.Surface.NameTable

/-!
# Tables by name

A table is the function that it is made from, on the names that it is made for.

* `NameTable.get?_build`, `NameTable.mem_names_build`: what a table finds, and the names that it
  lists.
* `NameTable.pairwise_names_build`: the bytes of the names are in strictly increasing order.
-/

namespace Interop

/-! ## Distinct names in order -/

theorem mem_insertName {name other : String} {names : List String} :
    other ∈ insertName name names ↔ other = name ∨ other ∈ names := by
  induction names with
  | nil => exact List.mem_cons
  | cons first rest ih =>
    rw [insertName]
    split
    · exact List.mem_cons
    · split
      · rename_i heq
        subst heq
        simp
      · rw [List.mem_cons, ih, List.mem_cons]
        exact or_left_comm

theorem mem_sortNames {name : String} {names : List String} :
    name ∈ sortNames names ↔ name ∈ names := by
  induction names with
  | nil => rfl
  | cons first rest ih =>
    rw [List.mem_cons, ← ih]
    exact mem_insertName

theorem pairwise_insertName {names : List String} (h : names.Pairwise (· < ·)) (name : String) :
    (insertName name names).Pairwise (· < ·) := by
  induction names with
  | nil => exact List.pairwise_singleton _ _
  | cons first rest ih =>
    obtain ⟨hfirst, hrest⟩ := List.pairwise_cons.mp h
    rw [insertName]
    split
    · rename_i hlt
      refine .cons (List.forall_mem_cons.mpr ⟨hlt, fun other hother => ?_⟩) h
      exact lt_trans hlt (hfirst other hother)
    · split
      · exact h
      · rename_i hnlt hne
        refine .cons (fun other hother => ?_) (ih hrest)
        rcases mem_insertName.mp hother with rfl | hother
        · exact lt_of_le_of_ne (not_lt.mp hnlt) (Ne.symm hne)
        · exact hfirst other hother

theorem pairwise_sortNames (names : List String) : (sortNames names).Pairwise (· < ·) := by
  induction names with
  | nil => exact .nil
  | cons first rest ih => exact pairwise_insertName ih first

/-! ## Tables -/

namespace NameTable

variable {α : Type} {names : List String} {name : String} {value? : String → Option α}

theorem lookup_filterMap :
    (names.filterMap fun n => (value? n).map (n, ·)).lookup name =
      if name ∈ names then value? name else none := by
  induction names with
  | nil => rfl
  | cons first rest ih =>
    rw [List.filterMap_cons]
    by_cases heq : name = first
    · subst heq
      rw [if_pos List.mem_cons_self]
      cases hv : value? name with
      | none =>
        rw [hv] at ih
        exact ih.trans (ite_self _)
      | some a => exact List.lookup_cons_self
    · have hmem : name ∈ first :: rest ↔ name ∈ rest := by simp [heq]
      simp only [hmem]
      cases hv : value? first with
      | none => exact ih
      | some a =>
        rw [Option.map_some, List.lookup_cons, beq_false_of_ne heq]
        exact ih

theorem value?_of_mem_build {entry : String × α} (he : entry ∈ (build names value?).entries) :
    value? entry.1 = some entry.2 := by
  obtain ⟨n, -, hn⟩ := List.mem_filterMap.mp he
  obtain ⟨a, ha, rfl⟩ := Option.map_eq_some_iff.mp hn
  exact ha

theorem mem_of_get?_eq_some {table : NameTable α} {a : α} (h : table.get? name = some a) :
    (name, a) ∈ table.entries := by
  rw [get?, List.lookup_eq_some_iff] at h
  obtain ⟨before, after, hsplit, -⟩ := h
  rw [hsplit]
  exact List.mem_append_right _ List.mem_cons_self

/-- What a table finds under a name that it is made for. -/
theorem get?_build :
    (build names value?).get? name = if name ∈ names then value? name else none := by
  rw [get?, build, lookup_filterMap]
  simp only [mem_sortNames]

/-- A function without values under other names is found as it is. -/
theorem get?_build_of_mem (h : ∀ a, value? name = some a → name ∈ names) :
    (build names value?).get? name = value? name := by
  rw [get?_build]
  split
  · rfl
  · rename_i hno
    exact (Option.eq_none_iff_forall_ne_some.mpr fun a ha => hno (h a ha)).symm

/-- The names that have a value, in order. -/
theorem names_build :
    (build names value?).names = (sortNames names).filter fun n => (value? n).isSome := by
  rw [NameTable.names, build, List.map_filterMap, ← List.filterMap_eq_filter]
  refine List.filterMap_congr fun n _ => ?_
  cases hv : value? n <;> simp [Option.guard, hv]

theorem mem_names_build :
    name ∈ (build names value?).names ↔ name ∈ names ∧ ∃ a, value? name = some a := by
  rw [names_build, List.mem_filter, mem_sortNames, Option.isSome_iff_exists]

/-- **Order.** The UTF-8 bytes of the names are strictly increasing. -/
theorem pairwise_names_build :
    (build names value?).names.Pairwise
      fun a b => a.toUTF8.data.toList < b.toUTF8.data.toList := by
  rw [names_build]
  exact ((pairwise_sortNames names).filter _).imp Utf8.lt_iff_utf8_lt.mp

end NameTable

end Interop
