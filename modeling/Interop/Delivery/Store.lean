import Interop.Notice

/-!
# Stores of strategies

A store keeps the strategies that it has handed out, so that a type gets the same one every time.
The strategies of the known types are there from the start, one for a primitive and its wrapper;
every other one is made when its type is first looked up, after that of its elements.

* `StrategyStore.lookup`: the strategy of a type, and the store that keeps it.
-/

namespace Interop

/-- A strategy that a store keeps. Two entries hold one and the same strategy object iff their
cells are equal. `elementCell` is the cell of the strategy that an array strategy refers to. -/
structure Entry where
  cell : Nat
  strategy : Strategy
  elementCell : Option Nat
  deriving DecidableEq

/-- The strategies of a host. `cells` counts the objects made; `log` reports those that were made on
request, in order. -/
structure StrategyStore where
  entries : TypeMap Entry
  cells : Nat
  log : List Notice

namespace StrategyStore

/-- The types whose strategies are there from the start, with the cells of those. -/
def seeds : List (TypeId × Nat) :=
  Primitive.all.flatMap (fun p => [(Builtin.primitive p, p.rank), (Builtin.wrapper p, p.rank)]) ++
    [(Builtin.text, 8), (Builtin.bytes, 9)]

def initial : StrategyStore where
  entries := seeds.foldl
    (fun m (t, cell) =>
      match Strategy.known? t with
      | some s => m.insert t ⟨cell, s, none⟩
      | none => m)
    .empty
  cells := 10
  log := []

/-- Keeps a new strategy for `t`. -/
def store (r : StrategyStore) (t : TypeId) (s : Strategy) (elementCell : Option Nat) :
    Entry × StrategyStore :=
  let entry : Entry := ⟨r.cells, s, elementCell⟩
  (entry, ⟨r.entries.insert t entry, r.cells + 1, r.log ++ [.strategyCreated s t]⟩)

/-- The entry of a type. What is missing is made and kept, that of the elements first. -/
def lookup (g : TypeGraph) (r : StrategyStore) (t : TypeId) : Entry × StrategyStore :=
  match r.entries.get? t with
  | some entry => (entry, r)
  | none =>
    match g.element? t with
    | some element =>
      if element.index < t.index then
        let (inner, r) := lookup g r element
        r.store t (.array element inner.strategy) (some inner.cell)
      else r.store t (.object t) none
    | none => r.store t (.object t) none
  termination_by t.index

def contains (r : StrategyStore) (t : TypeId) : Bool := r.entries.contains t

/-- The count of the types that have a strategy. -/
def size (r : StrategyStore) : Nat := r.entries.size

def score (g : TypeGraph) (r : StrategyStore) (t : TypeId) (v : ScriptValue) :
    Score × StrategyStore :=
  let (entry, r) := r.lookup g t
  (entry.strategy.score g v, r)

def convert (g : TypeGraph) (r : StrategyStore) (t : TypeId) (v : ScriptValue) :
    Except DeliveryError NativeValue × StrategyStore :=
  let (entry, r) := r.lookup g t
  (entry.strategy.convert g v, r)

end StrategyStore

end Interop
