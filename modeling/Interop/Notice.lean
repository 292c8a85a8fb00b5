import Interop.Delivery.Strategy
import Interop.Surface.OverloadSet

/-!
# Notices

What the library reports while it works, beside its answers.

* `Notice.line`: the line of a log that shows a notice, its level before its message.
-/

namespace Interop

inductive Level where
  | warn
  | debug
  | trace
  deriving DecidableEq, Repr

def Level.name : Level → String
  | warn => "WARN"
  | debug => "DEBUG"
  | trace => "TRACE"

/-- The four parts of what scripts see of a type. -/
inductive Part where
  | fields
  | methods
  | constructors
  | nested
  deriving DecidableEq, Repr

/-- What the entries of a part are called where they are counted. -/
def Part.entries : Part → String
  | fields => "fields"
  | methods => "method names"
  | constructors => "constructors"
  | nested => "member types"

inductive Notice where
  | fieldOmitted (type : TypeId) (field : String) (error : MemberError)
  | projected (type : TypeId) (part : Part) (count : Nat)
  | strategyCreated (strategy : Strategy) (type : TypeId)
  | arityClamped (requested limit : Nat)
  | noMatch (name : String) (arity : Nat)
  | tied (name : String) (arity count : Nat) (score : Score)
  | chose (name : String) (arity : Nat) (member : Callable) (score : Score)
  deriving DecidableEq

namespace Notice

def level : Notice → Level
  | fieldOmitted .. => .warn
  | projected .. => .debug
  | strategyCreated .. => .debug
  | arityClamped .. => .warn
  | noMatch .. => .trace
  | tied .. => .trace
  | chose .. => .trace

private def call (name : String) (arity : Nat) : String := name ++ "/" ++ toString arity ++ ": "

def message (g : TypeGraph) : Notice → String
  | fieldOmitted type field error =>
    g.name type ++ ": omitting field " ++ field ++ ": " ++ error.message
  | projected type part count => g.name type ++ ": " ++ toString count ++ " " ++ part.entries
  | strategyCreated strategy type => "created " ++ strategy.describe g ++ " for " ++ g.name type
  | arityClamped requested limit =>
    "max-arity " ++ toString requested ++ " exceeds the limit of " ++ toString limit ++
      "; clamping"
  | noMatch name arity => call name arity ++ "no match"
  | tied name arity count score =>
    call name arity ++ toString count ++ " tied at " ++ score.text
  | chose name arity member score =>
    call name arity ++ "chose " ++ member.text g ++ " at " ++ score.text

/-- The line that a log shows. -/
def line (g : TypeGraph) (n : Notice) : String := n.level.name ++ " " ++ n.message g

end Notice

end Interop
