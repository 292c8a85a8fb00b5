import Interop.Call.Rules
import Interop.Notice

/-!
# Choosing an overload

The total of a candidate is the sum of the scores of its arguments. The candidate with the lowest
coercible total is chosen; ties go by the rules of the call.

* `TypeGraph.callScore`: the total, found up to the first argument that makes it uncoercible.
* `CallRules.select`: the chosen candidate with its total, or why there is none.
-/

namespace Interop

inductive SelectionError where
  | ambiguous (name : String) (score : Score) (candidates : List Callable)
  | noMatch (name : String) (arity : Nat)
  | arityTooLarge (arity limit : Nat)
  deriving DecidableEq

def SelectionError.message : SelectionError → String
  | ambiguous name score candidates =>
    "Ambiguous call to " ++ name ++ ": " ++ toString candidates.length ++ " candidates score " ++
      toString score.cost
  | noMatch name arity => "No overload of " ++ name ++ " accepts " ++ toString arity ++ " arguments"
  | arityTooLarge arity limit =>
    "Call with " ++ toString arity ++ " arguments exceeds the maximum arity " ++ toString limit

/-! ## Totals -/

/-- Adds the scores of the arguments to `total`, as long as it is coercible. -/
def TypeGraph.addScores (g : TypeGraph) (total : Score) : List (TypeId × ScriptValue) → Score
  | [] => total
  | (parameter, argument) :: rest =>
    let total := total + g.score parameter argument
    if total.isCoercible then addScores g total rest else total

/-- The summed score of the arguments. Their count has to be that of the parameters. -/
def TypeGraph.callScore (g : TypeGraph) (parameters : List TypeId)
    (arguments : List ScriptValue) : Score :=
  if parameters.length = arguments.length then g.addScores .exact (parameters.zip arguments)
  else .uncoercible

/-! ## The choice -/

structure Selected where
  member : Callable
  score : Score
  deriving DecidableEq

/-- The lowest total so far, and the candidates that have it in the order of their declaration. -/
structure Leaders where
  score : Score
  candidates : List Callable
  deriving DecidableEq

def Leaders.none : Leaders := ⟨.uncoercible, []⟩

/-- Lets one more candidate compete. Only one with as many parameters as there are arguments and
with a coercible total takes part. -/
def Leaders.consider (g : TypeGraph) (arguments : List ScriptValue) (leaders : Leaders)
    (candidate : Callable) : Leaders :=
  if candidate.arity ≠ arguments.length then leaders
  else
    let total := g.callScore candidate.parameters arguments
    if !total.isCoercible then leaders
    else if total < leaders.score then ⟨total, [candidate]⟩
    else if total = leaders.score then ⟨total, leaders.candidates ++ [candidate]⟩
    else leaders

def Leaders.among (g : TypeGraph) (arguments : List ScriptValue) (candidates : List Callable) :
    Leaders :=
  candidates.foldl (Leaders.consider g arguments) .none

def CallRules.select (rules : CallRules) (g : TypeGraph) (overloads : OverloadSet)
    (arguments : List ScriptValue) : Except SelectionError Selected :=
  if rules.maxArity < arguments.length then
    .error (.arityTooLarge arguments.length rules.maxArity)
  else
    let leaders := Leaders.among g arguments overloads.candidates
    match leaders.candidates, rules.tieBreak with
    | [], _ => .error (.noMatch overloads.name arguments.length)
    | [only], _ => .ok ⟨only, leaders.score⟩
    | first :: _, .declarationOrder => .ok ⟨first, leaders.score⟩
    | tied, .reject => .error (.ambiguous overloads.name leaders.score tied)

/-- What a choice reports. A call with too many arguments reports nothing. -/
def selectionNotices (name : String) (arity : Nat) :
    Except SelectionError Selected → List Notice
  | .ok selected => [.chose name arity selected.member selected.score]
  | .error (.ambiguous _ score candidates) => [.tied name arity candidates.length score]
  | .error (.noMatch ..) => [.noMatch name arity]
  | .error (.arityTooLarge ..) => []

/-! ## Binding -/

/-- Converts the arguments of a call to the parameter types of the chosen member. -/
def TypeGraph.convertArguments (g : TypeGraph) (member : Callable) (arguments : List ScriptValue) :
    Except DeliveryError (List NativeValue) :=
  if member.parameters.length = arguments.length then
    (member.parameters.zip arguments).mapM fun (parameter, argument) => g.convert parameter argument
  else .error (.argumentCount member.parameters.length arguments.length)

/-- Converts a value that is stored into a field. -/
def TypeGraph.convertForField (g : TypeGraph) (field : Field) (value : ScriptValue) :
    Except DeliveryError NativeValue :=
  if field.modifiers.isFinal then .error (.finalField field.name)
  else g.convert field.type value

end Interop
