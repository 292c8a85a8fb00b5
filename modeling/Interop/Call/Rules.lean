import Interop.Delivery.Score

/-!
# Rules of overload choice

* `CallRules.isValid`: the arity limit may be at most `Score.arityLimit`, so that sums of scores
  stay coercible.
* `CallRules.clamped`: the nearest valid rules.
-/

namespace Interop

/-- What becomes of several candidates with the same lowest score. -/
inductive TieBreak where
  | reject
  | declarationOrder
  deriving DecidableEq, Repr

namespace TieBreak

/-- The name of a tie-break in settings. -/
def key : TieBreak → String
  | reject => "reject"
  | declarationOrder => "declaration-order"

def ofKey? (key : String) : Option TieBreak :=
  [reject, declarationOrder].find? fun t => t.key = key

end TieBreak

/-- How a call is resolved: what to do with a tie, and how many arguments it may have. -/
structure CallRules where
  tieBreak : TieBreak
  maxArity : Nat
  deriving DecidableEq, Repr

namespace CallRules

def default : CallRules := ⟨.reject, Score.arityLimit⟩

def isValid (r : CallRules) : Bool := r.maxArity ≤ Score.arityLimit

/-- The rules with an arity limit that is within bounds. -/
def clamped (r : CallRules) : CallRules := { r with maxArity := min r.maxArity Score.arityLimit }

end CallRules

end Interop
