import Interop.Proofs.Delivery.Store
import Mathlib.Logic.Relation

/-!
# Sessions with a store

A session starts with a new store. The store is asked for strategies, scores and conversions in any
order, while the types may grow.

* `TypeGraph.Nests`: a type and the types of its elements, at every depth.
* `StrategyStore.Serves`: which entry a type has. It depends on the type alone.
* `StrategyStore.Ledger`: the entries of a store beside the list of the types for which it made
  one. A look-up adds the types that it lacks, elements first (`Ledger.lookup`).
* `Session.LeadsTo.ledger`: every session keeps a ledger, its keys are the types asked for with
  their nested element types, and what is once kept stays.
-/

namespace Interop

/-! ## Nested element types -/

/-- `u` is `t`, or an element type of an array type that `t` nests. -/
def TypeGraph.Nests (g : TypeGraph) : TypeId → TypeId → Prop :=
  Relation.ReflTransGen fun a b => g.element? a = some b

namespace TypeGraph

variable {g g' : TypeGraph} {t u e : TypeId}

/-- An array type nests itself and what its element type nests. -/
theorem nests_of_element (he : g.element? t = some e) :
    g.Nests t u ↔ u = t ∨ g.Nests e u := by
  constructor
  · intro h
    rcases Relation.ReflTransGen.cases_head h with rfl | ⟨e', he', h⟩
    · exact .inl rfl
    · rw [he] at he'
      cases he'
      exact .inr h
  · rintro (rfl | h)
    · exact Relation.ReflTransGen.refl
    · exact Relation.ReflTransGen.head he h

theorem nests_of_no_element (he : g.element? t = none) : g.Nests t u ↔ u = t := by
  constructor
  · intro h
    rcases Relation.ReflTransGen.cases_head h with rfl | ⟨e', he', -⟩
    · rfl
    · rw [he] at he'
      cases he'
  · rintro rfl
    exact Relation.ReflTransGen.refl

theorem WellFormed.index_le_of_nests (hw : g.WellFormed) (h : g.Nests t u) :
    u.index ≤ t.index := by
  induction h with
  | refl => exact Nat.le_refl _
  | tail _ he ih => exact Nat.le_trans (Nat.le_of_lt (hw.element_older _ _ he)) ih

/-- What a type nests stays when the graph grows. -/
theorem GrowsTo.nests (hg : g.GrowsTo g') (hw : g.WellFormed) (ht : g.Has t) :
    g'.Nests t u ↔ g.Nests t u := by
  induction hi : t.index using Nat.strongRecOn generalizing t with
  | ind i ih =>
    cases he : g.element? t with
    | none => rw [nests_of_no_element he, nests_of_no_element ((hg.element? ht).trans he)]
    | some e =>
      have older := hw.element_older t e he
      rw [nests_of_element he, nests_of_element ((hg.element? ht).trans he),
        ih e.index (hi ▸ older) (Nat.lt_trans older ht) rfl]

end TypeGraph

namespace StrategyStore

variable {g g' : TypeGraph} {r : StrategyStore} {t u e : TypeId} {made : List TypeId}

/-! ## Seeds -/

/-- The types whose strategies are there from the start. -/
def seeded : List TypeId := seeds.map Prod.fst

private theorem known_of_mem_seeded : ∀ t ∈ seeded, (Strategy.known? t).isSome := by decide

private theorem mem_seeded_of_known :
    ∀ i < TypeGraph.initial.size, (Strategy.known? ⟨i⟩).isSome → ⟨i⟩ ∈ seeded := by
  decide

/-- The seeded types are those whose strategy is known from the start. -/
theorem mem_seeded_iff : t ∈ seeded ↔ (Strategy.known? t).isSome := by
  constructor
  · exact known_of_mem_seeded t
  · intro h
    obtain ⟨s, hs⟩ := Option.isSome_iff_exists.mp h
    exact mem_seeded_of_known t.index (Strategy.has_of_known hs) h

theorem notMem_seeded_iff : t ∉ seeded ↔ Strategy.known? t = none := by
  rw [mem_seeded_iff, Option.not_isSome_iff_eq_none]

theorem contains_initial : initial.contains t ↔ t ∈ seeded := by
  rw [mem_seeded_iff, ← initial_get?, Option.isSome_map]
  rfl

private theorem initial_elements : ∀ i < TypeGraph.initial.size, ∀ e,
    TypeGraph.initial.element? ⟨i⟩ = some e → e ∈ seeded := by
  intro i hi
  have h : ∀ i < TypeGraph.initial.size, ∀ e ∈ TypeGraph.initial.element? ⟨i⟩, e ∈ seeded := by
    decide
  exact h i hi

/-- The elements of a seeded array type are of a seeded type. -/
theorem mem_seeded_of_element (hw : g.WellFormed) (ht : t ∈ seeded)
    (he : g.element? t = some e) : e ∈ seeded := by
  obtain ⟨s, hs⟩ := Option.isSome_iff_exists.mp (mem_seeded_iff.mp ht)
  have hi := Strategy.has_of_known hs
  rw [hw.known.element? hi] at he
  exact initial_elements t.index hi e he

private theorem initial_cells : ∀ i < TypeGraph.initial.size,
    (∀ entry ∈ initial.entries.get? ⟨i⟩, entry.cell < initial.cells) ∧
      ∀ j < TypeGraph.initial.size, ∀ entry ∈ initial.entries.get? ⟨i⟩,
        ∀ entry' ∈ initial.entries.get? ⟨j⟩, entry.cell = entry'.cell →
          i = j ∨ (Builtin.carried? ⟨i⟩).isSome ∧ Builtin.carried? ⟨i⟩ = Builtin.carried? ⟨j⟩ := by
  decide +kernel

/-! ## Entries -/

/-- The entry that a type has: a seeded type the one from the start; any other array type an array
strategy that refers to the very strategy that is kept for its element type; and every other type
delivery by inheritance to just this type. -/
inductive Serves (g : TypeGraph) (r : StrategyStore) : TypeId → Entry → Prop
  | seed {t : TypeId} {entry : Entry} (known : Strategy.known? t = some entry.strategy)
      (kept : initial.entries.get? t = some entry) : Serves g r t entry
  | array {t e : TypeId} {inner : Entry} {cell : Nat} (ht : t ∉ seeded)
      (he : g.element? t = some e) (kept : r.entries.get? e = some inner) :
      Serves g r t ⟨cell, .array e inner.strategy, some inner.cell⟩
  | object {t : TypeId} {cell : Nat} (ht : t ∉ seeded) (he : g.element? t = none) :
      Serves g r t ⟨cell, .object t, none⟩

/-- Every entry of `r` is also one of `r'`. -/
def KeptIn (r r' : StrategyStore) : Prop :=
  ∀ t entry, r.entries.get? t = some entry → r'.entries.get? t = some entry

theorem KeptIn.refl (r : StrategyStore) : r.KeptIn r := fun _ _ h => h

theorem KeptIn.trans {r' r'' : StrategyStore} (h : r.KeptIn r') (h' : r'.KeptIn r'') :
    r.KeptIn r'' :=
  fun t entry he => h' t entry (h t entry he)

theorem keptIn_store (free : r.entries.get? t = none) (s : Strategy) (cell : Option Nat) :
    r.KeptIn (r.store t s cell).2 :=
  fun _ _ hu => TypeMap.get?_insert_of_free free hu _

theorem Serves.keptIn {r' : StrategyStore} {entry : Entry} (h : r.Serves g t entry)
    (hk : r.KeptIn r') : r'.Serves g t entry := by
  cases h with
  | seed ht kept => exact .seed ht kept
  | array ht he kept => exact .array ht he (hk _ _ kept)
  | object ht he => exact .object ht he

theorem Serves.growsTo {entry : Entry} (h : r.Serves g t entry) (hg : g.GrowsTo g')
    (ht : g.Has t) : r.Serves g' t entry := by
  cases h with
  | seed ht kept => exact .seed ht kept
  | array hs he kept => exact .array hs ((hg.element? ht).trans he) kept
  | object hs he => exact .object hs ((hg.element? ht).trans he)

/-! ## Ledgers -/

/-- The entries of a store beside the types for which it made one, in order. -/
structure Ledger (g : TypeGraph) (made : List TypeId) (r : StrategyStore) : Prop where
  agrees : r.Agrees g
  unseeded : ∀ t ∈ made, t ∉ seeded
  nodup : made.Nodup
  contains_iff : ∀ t, r.contains t ↔ t ∈ seeded ∨ t ∈ made
  size_eq : r.size = 18 + made.length
  log_eq : r.log = made.map fun t => .strategyCreated (g.strategy t) t
  serves : ∀ t entry, r.entries.get? t = some entry → r.Serves g t entry
  elements_first : ∀ t ∈ made, ∀ e, g.element? t = some e → e ∉ seeded → [e, t].Sublist made
  cell_lt : ∀ t entry, r.entries.get? t = some entry → entry.cell < r.cells
  eq_of_cell : ∀ t u entry entry', r.entries.get? t = some entry →
    r.entries.get? u = some entry' → entry.cell = entry'.cell →
    t = u ∨ (Builtin.carried? t).isSome ∧ Builtin.carried? t = Builtin.carried? u

private theorem known_of_initial {entry : Entry} (he : initial.entries.get? t = some entry) :
    Strategy.known? t = some entry.strategy := by
  rw [← initial_get?, he]
  rfl

private theorem has_of_initial {entry : Entry} (he : initial.entries.get? t = some entry) :
    TypeGraph.initial.Has t :=
  Strategy.has_of_known (known_of_initial he)

private theorem size_initial : initial.size = 18 := by decide +kernel

theorem Ledger.has_of_mem (hl : r.Ledger g made) (ht : t ∈ made) : g.Has t := by
  have hc := (hl.contains_iff t).mpr (.inr ht)
  obtain ⟨entry, he⟩ := Option.isSome_iff_exists.mp hc
  exact (hl.agrees.right t entry he).1

theorem Ledger.notMem_seeded (hl : r.Ledger g made) (free : r.entries.get? t = none) :
    t ∉ seeded :=
  notMem_seeded_iff.mpr (hl.agrees.unknown free)

theorem Ledger.notMem_made (hl : r.Ledger g made) (free : r.entries.get? t = none) :
    t ∉ made := by
  intro ht
  have hc := (hl.contains_iff t).mpr (.inr ht)
  rw [contains, TypeMap.contains, free] at hc
  cases hc

theorem ledger_initial (hg : TypeGraph.initial.GrowsTo g) : initial.Ledger g [] where
  agrees := agrees_initial hg
  unseeded := nofun
  nodup := .nil
  contains_iff t := by rw [contains_initial, List.mem_nil_iff, or_false]
  size_eq := size_initial
  log_eq := rfl
  serves t entry he := .seed (known_of_initial he) he
  elements_first := nofun
  cell_lt t entry he := (initial_cells t.index (has_of_initial he)).1 entry he
  eq_of_cell t u entry entry' he he' heq := by
    have h := (initial_cells t.index (has_of_initial he)).2 u.index (has_of_initial he')
      entry he entry' he' heq
    exact h.imp_left fun hi => congrArg TypeId.mk hi

/-- Every entry of a type of the graph stays right when the graph grows. -/
theorem Ledger.growsTo (hl : r.Ledger g made) (hg : g.GrowsTo g') : r.Ledger g' made where
  agrees := hl.agrees.growsTo hg
  unseeded := hl.unseeded
  nodup := hl.nodup
  contains_iff := hl.contains_iff
  size_eq := hl.size_eq
  log_eq := by
    rw [hl.log_eq]
    refine List.map_congr_left fun t ht => ?_
    rw [hg.strategy (hl.has_of_mem ht)]
  serves t entry he := (hl.serves t entry he).growsTo hg (hl.agrees.right t entry he).1
  elements_first t ht e he hs :=
    hl.elements_first t ht e ((hg.element? (hl.has_of_mem ht)).symm.trans he) hs
  cell_lt := hl.cell_lt
  eq_of_cell := hl.eq_of_cell

/-- A new entry for a type that has none, after that of its elements. -/
theorem Ledger.store (hl : r.Ledger g made) (ht : g.Has t) (free : r.entries.get? t = none)
    {s : Strategy} {cell : Option Nat} (hs : s = g.strategy t)
    (serves : r.Serves g t ⟨r.cells, s, cell⟩)
    (after : ∀ e, g.element? t = some e → e ∉ seeded → e ∈ made) :
    (r.store t s cell).2.Ledger g (made ++ [t]) := by
  have hkept := keptIn_store free s cell
  have hget : ∀ u entry, (r.store t s cell).2.entries.get? u = some entry →
      (t = u ∧ entry = ⟨r.cells, s, cell⟩) ∨ r.entries.get? u = some entry := by
    intro u entry he
    simp only [StrategyStore.store, TypeMap.get?_insert] at he
    split at he
    · rename_i htu
      cases he
      exact .inl ⟨htu, rfl⟩
    · exact .inr he
  refine ⟨hl.agrees.store ht hs cell, ?_, ?_, ?_, ?_, ?_, ?_, ?_, ?_, ?_⟩
  · intro u hu
    rcases List.mem_append.mp hu with hu | hu
    · exact hl.unseeded u hu
    · exact List.mem_singleton.mp hu ▸ hl.notMem_seeded free
  · refine List.nodup_append.mpr ⟨hl.nodup, List.pairwise_singleton _ t, ?_⟩
    rintro u hu v hv rfl
    exact hl.notMem_made free (List.mem_singleton.mp hv ▸ hu)
  · intro u
    have h := hl.contains_iff u
    simp only [contains, TypeMap.contains, StrategyStore.store, TypeMap.get?_insert,
      List.mem_append, List.mem_singleton] at h ⊢
    split
    · rename_i htu
      simp [htu]
    · rename_i htu
      rw [h]
      simp [Ne.symm htu]
  · have h := hl.size_eq
    simp only [size, StrategyStore.store] at h ⊢
    rw [TypeMap.size_insert_of_free free, h, List.length_append, List.length_singleton]
    omega
  · simp only [StrategyStore.store]
    rw [hl.log_eq, List.map_append, List.map_singleton, hs]
  · intro u entry he
    rcases hget u entry he with ⟨rfl, rfl⟩ | he
    · exact serves.keptIn hkept
    · exact (hl.serves u entry he).keptIn hkept
  · intro u hu e he hne
    rcases List.mem_append.mp hu with hu | hu
    · exact (hl.elements_first u hu e he hne).trans (List.sublist_append_left _ _)
    · obtain rfl := List.mem_singleton.mp hu
      exact (List.singleton_sublist.mpr (after e he hne)).append (List.Sublist.refl [u])
  · intro u entry he
    rcases hget u entry he with ⟨rfl, rfl⟩ | he
    · exact Nat.lt_succ_self _
    · exact Nat.lt_succ_of_lt (hl.cell_lt u entry he)
  · -- The cell of the new entry is that of no other one.
    intro u v entry entry' he he' heq
    rcases hget u entry he with ⟨rfl, rfl⟩ | he <;> rcases hget v entry' he' with ⟨rfl, rfl⟩ | he'
    · exact .inl rfl
    · exact absurd heq (Nat.ne_of_gt (hl.cell_lt v entry' he'))
    · exact absurd heq (Nat.ne_of_lt (hl.cell_lt u entry he))
    · exact hl.eq_of_cell u v entry entry' he he' heq

/-- With a type, a store has all types that it nests. -/
theorem Ledger.contains_of_nests (hl : r.Ledger g made) (hw : g.WellFormed) (ht : r.contains t)
    (hu : g.Nests t u) : r.contains u := by
  induction hu with
  | refl => exact ht
  | tail _ he ih =>
    obtain ⟨entry, hentry⟩ := Option.isSome_iff_exists.mp ih
    cases hl.serves _ entry hentry with
    | seed known _ =>
      have hs := mem_seeded_iff.mpr (Option.isSome_of_mem known)
      exact (hl.contains_iff _).mpr (.inl (mem_seeded_of_element hw hs he))
    | array _ he' kept =>
      cases he.symm.trans he'
      exact Option.isSome_of_mem kept
    | object _ he' => cases he.symm.trans he'

/-- **Look-ups.** A look-up makes entries only for types that the type nests, gives the entry that
it keeps, and replaces none. -/
theorem Ledger.lookup (hl : r.Ledger g made) (hw : g.WellFormed) (ht : g.Has t) :
    ∃ new, (r.lookup g t).2.Ledger g (made ++ new) ∧ (∀ u ∈ new, g.Nests t u) ∧
      r.KeptIn (r.lookup g t).2 ∧ (r.lookup g t).2.entries.get? t = some (r.lookup g t).1 := by
  fun_induction StrategyStore.lookup g r t with
  | case1 t entry hget =>
    exact ⟨[], by rwa [List.append_nil], fun u hu => absurd hu List.not_mem_nil, .refl r, hget⟩
  | case2 t hget e he older inner r' hinner ih =>
    obtain ⟨new, hl', hnew, hkept, hinner'⟩ := ih (Nat.lt_trans older ht)
    rw [hinner] at hl' hkept hinner'
    have hs : .array e inner.strategy = g.strategy t := by
      rw [TypeGraph.strategy_of_element (hl.agrees.unknown hget) he older,
        (hl'.agrees.right e inner hinner').2]
    -- What the element type nests is older than `t`, so `t` is still to be made.
    have hfree : r'.entries.get? t = none := by
      rw [← Option.not_isSome_iff_eq_none]
      intro hc
      rcases (hl'.contains_iff t).mp hc with hc | hc
      · exact hl.notMem_seeded hget hc
      · rcases List.mem_append.mp hc with hc | hc
        · exact hl.notMem_made hget hc
        · exact absurd (hw.index_le_of_nests (hnew t hc)) (Nat.not_le_of_lt older)
    refine ⟨new ++ [t], ?_, ?_, hkept.trans (keptIn_store hfree _ _), ?_⟩
    · rw [← List.append_assoc]
      refine hl'.store ht hfree hs (.array (hl.notMem_seeded hget) he hinner') fun e' he' hne => ?_
      cases he.symm.trans he'
      exact ((hl'.contains_iff e).mp (Option.isSome_of_mem hinner')).resolve_left hne
    · intro u hu
      rw [TypeGraph.nests_of_element he]
      exact (List.mem_append.mp hu).elim (fun hu => .inr (hnew u hu))
        (fun hu => .inl (List.mem_singleton.mp hu))
    · exact (TypeMap.get?_insert _ _ _ _).trans (if_pos rfl)
  | case3 t hget e he young => exact absurd (hw.element_older t e he) young
  | case4 t hget he =>
    have hs : .object t = g.strategy t :=
      (TypeGraph.strategy_of_no_element (hl.agrees.unknown hget) he).symm
    refine ⟨[t], ?_, ?_, keptIn_store hget _ _, (TypeMap.get?_insert _ _ _ _).trans (if_pos rfl)⟩
    · exact hl.store ht hget hs (.object (hl.notMem_seeded hget) he) fun e he' => by
        cases he.symm.trans he'
    · intro u hu
      exact List.mem_singleton.mp hu ▸ .refl

end StrategyStore

/-! ## Sessions -/

/-- A session: the types there are, those that have been asked for, in order, and the store. -/
structure Session where
  types : TypeGraph
  asked : List TypeId
  store : StrategyStore

namespace Session

open StrategyStore (seeded)

variable {g : TypeGraph} {s s' s'' : Session} {made : List TypeId}

/-- A session that begins with the types of `g` and a new store. -/
def start (g : TypeGraph) : Session := ⟨g, [], .initial⟩

/-- What happens next: the types grow, or the store is asked for a type of the graph. -/
inductive Step (s : Session) : Session → Prop
  | grow (g : TypeGraph) (hg : s.types.GrowsTo g) (hw : g.WellFormed) :
      Step s { s with types := g }
  | lookup (t : TypeId) (ht : s.types.Has t) :
      Step s ⟨s.types, s.asked ++ [t], (s.store.lookup s.types t).2⟩
  | score (t : TypeId) (v : ScriptValue) (ht : s.types.Has t) :
      Step s ⟨s.types, s.asked ++ [t], (s.store.score s.types t v).2⟩
  | convert (t : TypeId) (v : ScriptValue) (ht : s.types.Has t) :
      Step s ⟨s.types, s.asked ++ [t], (s.store.convert s.types t v).2⟩

abbrev LeadsTo : Session → Session → Prop := Relation.ReflTransGen Step

/-- The store has the ledger `made`, and its types are the seeded ones and those asked for, with
all that they nest. -/
structure Keeps (s : Session) (made : List TypeId) : Prop where
  wellFormed : s.types.WellFormed
  has_of_asked : ∀ t ∈ s.asked, s.types.Has t
  ledger : s.store.Ledger s.types made
  contains_iff : ∀ u, s.store.contains u ↔ u ∈ seeded ∨ ∃ t ∈ s.asked, s.types.Nests t u

theorem keeps_start (hw : g.WellFormed) : (start g).Keeps [] where
  wellFormed := hw
  has_of_asked := nofun
  ledger := StrategyStore.ledger_initial hw.known
  contains_iff u := by
    show StrategyStore.initial.contains u ↔ u ∈ seeded ∨ ∃ t ∈ [], g.Nests t u
    simp only [StrategyStore.contains_initial, List.not_mem_nil, false_and, exists_false, or_false]

theorem Keeps.grow (h : s.Keeps made) (hg : s.types.GrowsTo g) (hw : g.WellFormed) :
    Keeps { s with types := g } made where
  wellFormed := hw
  has_of_asked t ht := hg.has (h.has_of_asked t ht)
  ledger := h.ledger.growsTo hg
  contains_iff u := by
    rw [h.contains_iff]
    refine or_congr_right (exists_congr fun t => and_congr_right fun ht => ?_)
    exact (hg.nests h.wellFormed (h.has_of_asked t ht)).symm

/-- A store that is asked for a type makes entries for it and for what it nests. -/
theorem Keeps.lookup (h : s.Keeps made) {t : TypeId} (ht : s.types.Has t) :
    ∃ new, Keeps ⟨s.types, s.asked ++ [t], (s.store.lookup s.types t).2⟩ (made ++ new) ∧
      s.store.KeptIn (s.store.lookup s.types t).2 := by
  obtain ⟨new, hl, hnew, hkept, hget⟩ := h.ledger.lookup h.wellFormed ht
  refine ⟨new, ⟨h.wellFormed, ?_, hl, fun u => ⟨fun hu => ?_, fun hu => ?_⟩⟩, hkept⟩
  · intro u hu
    rcases List.mem_append.mp hu with hu | hu
    · exact h.has_of_asked u hu
    · exact List.mem_singleton.mp hu ▸ ht
  · rcases (hl.contains_iff u).mp hu with hu | hu
    · exact .inl hu
    · rcases List.mem_append.mp hu with hu | hu
      · -- An entry that was there already.
        refine ((h.contains_iff u).mp ((h.ledger.contains_iff u).mpr (.inr hu))).imp_right ?_
        rintro ⟨t', ht', hu⟩
        exact ⟨t', List.mem_append_left _ ht', hu⟩
      · exact .inr ⟨t, List.mem_append_right _ List.mem_cons_self, hnew u hu⟩
  · rcases hu with hu | ⟨t', ht', hu⟩
    · exact (hl.contains_iff u).mpr (.inl hu)
    · rcases List.mem_append.mp ht' with ht' | ht'
      · have hold := (h.contains_iff u).mpr (.inr ⟨t', ht', hu⟩)
        obtain ⟨entry, he⟩ := Option.isSome_iff_exists.mp hold
        exact Option.isSome_of_mem (hkept u entry he)
      · obtain rfl := List.mem_singleton.mp ht'
        exact hl.contains_of_nests h.wellFormed (Option.isSome_of_mem hget) hu

/-- **Steps.** Whatever happens, the ledger goes on and no entry is replaced. -/
theorem Step.keeps (st : Step s s') (h : s.Keeps made) :
    ∃ new, s'.Keeps (made ++ new) ∧ s.store.KeptIn s'.store := by
  cases st with
  | grow g hg hw => exact ⟨[], by simpa using h.grow hg hw, .refl _⟩
  | lookup t ht => exact h.lookup ht
  | score t v ht => exact h.lookup ht
  | convert t v ht => exact h.lookup ht

theorem LeadsTo.keeps (hl : s.LeadsTo s') (h : s.Keeps made) :
    ∃ new, s'.Keeps (made ++ new) ∧ s.store.KeptIn s'.store := by
  induction hl with
  | refl => exact ⟨[], by simpa using h, .refl _⟩
  | tail _ st ih =>
    obtain ⟨new, h', hk⟩ := ih
    obtain ⟨new', h'', hk'⟩ := st.keeps h'
    exact ⟨new ++ new', by rwa [← List.append_assoc], hk.trans hk'⟩

/-- **Sessions.** After any session that began with a new store:

- the store has a ledger, which gives the count and the log of its entries and what each of them
  holds;
- its types are the seeded ones and those asked for, with all that they nest;
- a look-up gives the entry that the store then keeps, and an entry once kept is what every later
  look-up of its type gives;
- scores and conversions are those of a new store. -/
theorem LeadsTo.entries_determined (hw : g.WellFormed) (hs : (start g).LeadsTo s)
    (hs' : s.LeadsTo s') :
    (∃ made, s.store.Ledger s.types made) ∧
    (∀ u, s.store.contains u ↔ u ∈ seeded ∨ ∃ t ∈ s.asked, s.types.Nests t u) ∧
    (∀ t, s.types.Has t →
      (s.store.lookup s.types t).2.entries.get? t = some (s.store.lookup s.types t).1) ∧
    (∀ t entry, s.store.entries.get? t = some entry →
      s'.store.entries.get? t = some entry ∧ s'.store.lookup s'.types t = (entry, s'.store)) ∧
    ∀ t v, (s.store.score s.types t v).1 = (StrategyStore.initial.score s.types t v).1 ∧
      (s.store.convert s.types t v).1 = (StrategyStore.initial.convert s.types t v).1 := by
  obtain ⟨made, h, -⟩ := hs.keeps (keeps_start hw)
  obtain ⟨new, h', hk⟩ := hs'.keeps h
  have hnew := StrategyStore.agrees_initial h.wellFormed.known
  refine ⟨⟨_, h.ledger⟩, h.contains_iff, fun t ht => ?_, fun t entry he => ?_, fun t v => ?_⟩
  · obtain ⟨-, -, -, -, hget⟩ := h.ledger.lookup h.wellFormed ht
    exact hget
  · have he' := hk t entry he
    exact ⟨he', by rw [StrategyStore.lookup, he']⟩
  · rw [h.ledger.agrees.score_fst, h.ledger.agrees.convert_fst, hnew.score_fst, hnew.convert_fst]
    exact ⟨rfl, rfl⟩

/-- A session in which the type of arrays of byte arrays is made and asked for. -/
def rows : Session :=
  let types := (TypeGraph.initial.arrayType Builtin.bytes).2
  ⟨types, [⟨25⟩], (StrategyStore.initial.lookup types ⟨25⟩).2⟩

/-- It goes on: the type of arrays of these is made, and nil is converted to it. -/
def planes : Session :=
  let types := (rows.types.arrayType ⟨25⟩).2
  ⟨types, rows.asked ++ [⟨26⟩], (rows.store.convert types ⟨26⟩ .nil).2⟩

theorem leadsTo_rows : (start .initial).LeadsTo rows := by
  have hw := TypeGraph.wellFormed_initial
  have grown := Relation.ReflTransGen.single
    (Step.grow (s := start .initial) _ (TypeGraph.growsTo_arrayType .initial Builtin.bytes)
      (hw.arrayType (by decide)))
  exact grown.tail (.lookup ⟨25⟩ (by decide))

theorem leadsTo_planes : rows.LeadsTo planes := by
  have hw : rows.types.WellFormed := TypeGraph.wellFormed_initial.arrayType (by decide)
  have grown := Relation.ReflTransGen.single
    (Step.grow (s := rows) _ (TypeGraph.growsTo_arrayType rows.types ⟨25⟩)
      (hw.arrayType (by decide)))
  exact grown.tail (.convert ⟨26⟩ .nil (by decide))

theorem entries_determined_rows :
    TypeGraph.initial.WellFormed ∧ (start .initial).LeadsTo rows ∧ rows.LeadsTo planes ∧
      (∃ made, rows.store.Ledger rows.types made) ∧
      (∀ u, rows.store.contains u ↔ u ∈ seeded ∨ ∃ t ∈ rows.asked, rows.types.Nests t u) ∧
      ∀ t entry, rows.store.entries.get? t = some entry →
        planes.store.lookup planes.types t = (entry, planes.store) := by
  have h := leadsTo_rows.entries_determined TypeGraph.wellFormed_initial leadsTo_planes
  exact ⟨TypeGraph.wellFormed_initial, leadsTo_rows, leadsTo_planes, h.1, h.2.1,
    fun t entry he => (h.2.2.2.1 t entry he).2⟩

end Session

end Interop
