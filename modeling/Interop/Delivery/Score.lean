import Interop.Types.Distance

/-!
# Scores

A score is the cost of delivering a script value as a native type; lower is better. Its bands are
`exact`, the small penalties of numeric conversions, `nilAsNull` for nil in place of a reference,
`lossy` for a lossy conversion, and `uncoercible`, at which every sum stops.

* `Score.arityLimit`: so many arguments at `worstArgument` each still sum to a coercible score.
-/

namespace Interop

structure Score where
  cost : Nat
  cost_le : cost ≤ unreachable
  deriving DecidableEq

namespace Score

/-- The score of a cost, at most `uncoercible`. -/
def ofCost (cost : Nat) : Score := ⟨min cost unreachable, Nat.min_le_right _ _⟩

def exact : Score := ofCost 0

/-- Nil in place of a reference. -/
def nilAsNull : Score := ofCost 0x10

/-- A conversion that may lose something. -/
def lossy : Score := ofCost 0x100

def uncoercible : Score := ofCost unreachable

def isCoercible (s : Score) : Bool := s.cost < unreachable

/-- The greatest cost that an addition finds; greater sums stay there. -/
def greatestSum : Nat := 0xFFFFFFFF

/-- What is uncoercible stays so whatever is added. -/
def add (s t : Score) : Score :=
  if !s.isCoercible || !t.isCoercible then uncoercible
  else ofCost (min (s.cost + t.cost) greatestSum)

instance : Add Score := ⟨add⟩

def sum (scores : List Score) : Score := scores.foldl (· + ·) exact

instance : LE Score := ⟨fun s t => s.cost ≤ t.cost⟩

instance : LT Score := ⟨fun s t => s.cost < t.cost⟩

instance (s t : Score) : Decidable (s ≤ t) := inferInstanceAs (Decidable (s.cost ≤ t.cost))

instance (s t : Score) : Decidable (s < t) := inferInstanceAs (Decidable (s.cost < t.cost))

def text (s : Score) : String := if s.isCoercible then toString s.cost else "uncoercible"

/-- What it costs to read a number from text. -/
def readingPenalty : Nat := 4

/-- The highest coercible score of one argument. -/
def worstArgument : Nat := 0x100 + readingPenalty

/-- The most arguments whose highest scores still sum to a coercible one. -/
def arityLimit : Nat := (unreachable - 1) / worstArgument

theorem arityLimit_eq : arityLimit = 252 := rfl

end Score

end Interop
