import Interop.Types.Basic

/-!
# Maps from types

A map from types holds one slot per position, as far as a value has been stored.

* `TypeMap.get?_insert`: a look-up after a store. `TypeMap.get?_insert_of_free`: the values that
  were there before. `TypeMap.size_insert_of_free`: the count of the values.
-/

namespace Interop

structure TypeMap (α : Type) where
  slots : Array (Option α)

namespace TypeMap

variable {α : Type}

def empty : TypeMap α := ⟨#[]⟩

def get? (m : TypeMap α) (t : TypeId) : Option α := (m.slots[t.index]?).join

def contains (m : TypeMap α) (t : TypeId) : Bool := (m.get? t).isSome

/-- Stores a value, in the place of one stored before. -/
def insert (m : TypeMap α) (t : TypeId) (a : α) : TypeMap α :=
  ⟨(m.slots ++ Array.replicate (t.index + 1 - m.slots.size) none).setIfInBounds t.index (some a)⟩

/-- The count of the types that have a value. -/
def size (m : TypeMap α) : Nat := m.slots.countP Option.isSome

@[simp] theorem get?_empty (t : TypeId) : (empty : TypeMap α).get? t = none := rfl

theorem get?_insert (m : TypeMap α) (t u : TypeId) (a : α) :
    (m.insert t a).get? u = if t = u then some a else m.get? u := by
  obtain ⟨i⟩ := t
  obtain ⟨j⟩ := u
  simp only [get?, insert, Array.getElem?_setIfInBounds, Array.getElem?_append,
    Array.getElem?_replicate, Array.size_append, Array.size_replicate, TypeId.mk.injEq]
  by_cases h : i = j
  · subst h
    simp only [if_true]
    rw [if_pos (by omega)]
    rfl
  · simp only [h, if_false]
    by_cases hj : j < m.slots.size
    · simp [hj]
    · simp only [hj, if_false]
      rw [Array.getElem?_eq_none (by omega)]
      split <;> rfl

/-- Storing for a type that has no value keeps all others. -/
theorem get?_insert_of_free {m : TypeMap α} {t u : TypeId} {b : α} (free : m.get? t = none)
    (hu : m.get? u = some b) (a : α) : (m.insert t a).get? u = some b := by
  have hne : t ≠ u := by
    rintro rfl
    rw [free] at hu
    cases hu
  rw [get?_insert, if_neg hne]
  exact hu

/-- Storing for a type that has no value adds one to the count. -/
theorem size_insert_of_free {m : TypeMap α} {t : TypeId} (free : m.get? t = none) (a : α) :
    (m.insert t a).size = m.size + 1 := by
  have hlt : t.index < (m.slots ++ Array.replicate (t.index + 1 - m.slots.size) none).size := by
    simp only [Array.size_append, Array.size_replicate]
    omega
  have hslot : (m.slots ++ Array.replicate (t.index + 1 - m.slots.size) none)[t.index] = none := by
    simp only [get?] at free
    rw [Array.getElem_append]
    split
    · rename_i h
      simpa [h] using free
    · exact Array.getElem_replicate _
  simp only [size, insert, Array.setIfInBounds_def, dif_pos hlt, Array.countP_set, hslot,
    Array.countP_append, Array.countP_replicate, Option.isSome_none, Option.isSome_some,
    Bool.false_eq_true, if_false, if_true, Nat.sub_zero, Nat.add_zero]

end TypeMap

end Interop
