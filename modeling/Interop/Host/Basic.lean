import Interop.Call.Selection
import Interop.Delivery.Store
import Interop.Members.Draft
import Interop.Surface.Projection

/-!
# The host

A host owns the types and their members, the surfaces that scripts look at, and what it has found
out so far: distances, strategies and the parts of surfaces. Every operation answers and gives the
host that goes on.

* `Host.sharedSurface`: the one shared surface of a type. `Host.newSurface` makes another one.
* `Host.fields`, `Host.methods`, `Host.constructors`, `Host.nested`: a part of a surface. It is
  projected when it is first asked for and kept as it is from then on.
* `Host.relax`: opens a field to access, unless it is sealed.

What a host is asked for comes one operation after another. Not modelled are

* operations that run at the same time and the guards against them;
* memory, except that a table has to have room for its elements (`NativeValue.capacity`);
* counters that run over, except that numbers of types come again (`TypeId.number`), which only the
  table of array types is affected by here;
* the distances and strategies that are found while an overload is chosen or a value is scored or
  converted, except the strategy of the value's type. They are found again, and are the same;
* the name of the declaring type as a part of a member. It is read from the graph.
-/

namespace Interop

/-- A surface of a host, as its position among them. -/
structure SurfaceId where
  index : Nat
  deriving DecidableEq, Repr

/-- What scripts see of a type: the parts that have been asked for. -/
structure Surface where
  type : TypeId
  fields : Option (NameTable Field)
  methods : Option (NameTable OverloadSet)
  constructors : Option (Option OverloadSet)
  nested : Option (NameTable TypeId)

def Surface.ofType (t : TypeId) : Surface := ⟨t, none, none, none, none⟩

/-- `relaxed` holds the keys of the relaxed fields; `shared` finds the shared surface of a type;
`log` holds the notices in order. -/
structure Host where
  catalog : Catalog
  relaxed : List (TypeId × Nat)
  surfaces : Array Surface
  shared : TypeMap SurfaceId
  distances : DistanceMemo
  strategies : StrategyStore
  log : List Notice

namespace Host

def initial : Host where
  catalog := .initial
  relaxed := []
  surfaces := #[]
  shared := .empty
  distances := .empty
  strategies := .initial
  log := []

def types (h : Host) : TypeGraph := h.catalog.types

/-! ## Types and members -/

/-- Lets the type graph grow by one type. -/
def addType (h : Host) (grow : TypeGraph → TypeId × TypeGraph) : TypeId × Host :=
  let (t, types) := grow h.catalog.types
  (t, { h with catalog := { h.catalog with types } })

def declareClass (h : Host) (name : String) (superclass : Option TypeId)
    (interfaces : List TypeId) : TypeId × Host :=
  h.addType (·.declareClass name superclass interfaces)

def declareInterface (h : Host) (name : String) (extended : List TypeId) : TypeId × Host :=
  h.addType (·.declareInterface name extended)

def arrayType (h : Host) (element : TypeId) : TypeId × Host := h.addType (·.arrayType element)

/-- Gives a type members as they are. -/
def attach (h : Host) (t : TypeId) (m : Members) : Except MemberError Host :=
  (h.catalog.attach t m).map fun c => { h with catalog := c }

/-- Gives a type declared members. -/
def define (h : Host) (t : TypeId) (ds : List Declaration) : Except MemberError Host :=
  (h.catalog.define t ds).map fun c => { h with catalog := c }

/-- Gives a type the members of a draft. If that fails, the host goes on as it is. -/
def build (h : Host) (d : Draft) : Except MemberError TypeId × Host :=
  match h.catalog.build d with
  | .ok c => (.ok d.owner, { h with catalog := c })
  | .error e => (.error e, h)

def distance (h : Host) (target : TypeId) (candidate : Option TypeId) : Nat × Host :=
  let (d, memo) := h.distances.query h.types target candidate
  (d, { h with distances := memo })

/-! ## Access to fields -/

def isAccessible (h : Host) (f : Field) : Bool :=
  f.access = .unchecked || h.relaxed.contains f.key

/-- The refusal to relax a field. -/
def refusal (h : Host) (f : Field) : MemberError :=
  .sealedField (h.types.name f.declaring) f.name

def relax (h : Host) (f : Field) : Except MemberError Host :=
  match f.access with
  | .unchecked => .ok h
  | .relaxable => .ok { h with relaxed := f.key :: h.relaxed }
  | .sealed => .error (h.refusal f)

/-! ## Surfaces -/

/-- A surface of its own, with no part asked for yet. -/
def newSurface (h : Host) (t : TypeId) : SurfaceId × Host :=
  (⟨h.surfaces.size⟩, { h with surfaces := h.surfaces.push (.ofType t) })

/-- The shared surface of a type. -/
def sharedSurface (h : Host) (t : TypeId) : SurfaceId × Host :=
  match h.shared.get? t with
  | some s => (s, h)
  | none =>
    let (s, h) := h.newSurface t
    (s, { h with shared := h.shared.insert t s })

def surface? (h : Host) (s : SurfaceId) : Option Surface := h.surfaces[s.index]?

/-- Keeps a surface that has one more part and adds to the log. -/
def keep (h : Host) (s : SurfaceId) (surface : Surface) (notices : List Notice) : Host :=
  { h with surfaces := h.surfaces.setIfInBounds s.index surface, log := h.log ++ notices }

/-- Relaxes the public fields of a type as far as they can be. -/
def relaxPublic (h : Host) (t : TypeId) : Host :=
  let relaxable := (h.catalog.visibleFields t).filter (·.access = .relaxable)
  { h with relaxed := relaxable.map Field.key ++ h.relaxed }

/-- The fields of a surface. Finding them relaxes the access to them. -/
def fields (h : Host) (s : SurfaceId) : NameTable Field × Host :=
  match h.surface? s with
  | none => (.empty, h)
  | some surface =>
    match surface.fields with
    | some table => (table, h)
    | none =>
      let t := surface.type
      let table := h.catalog.fieldTable t
      let omitted := (h.catalog.omittedFields t).map fun f => .fieldOmitted t f.name (h.refusal f)
      (table, (h.relaxPublic t).keep s { surface with fields := some table }
        (omitted ++ [.projected t .fields table.size]))

def methods (h : Host) (s : SurfaceId) : NameTable OverloadSet × Host :=
  match h.surface? s with
  | none => (.empty, h)
  | some surface =>
    match surface.methods with
    | some table => (table, h)
    | none =>
      let table := h.catalog.methodTable surface.type
      (table, h.keep s { surface with methods := some table }
        [.projected surface.type .methods table.size])

def constructors (h : Host) (s : SurfaceId) : Option OverloadSet × Host :=
  match h.surface? s with
  | none => (none, h)
  | some surface =>
    match surface.constructors with
    | some found => (found, h)
    | none =>
      let found := h.catalog.constructors? surface.type
      let count := (h.catalog.visibleConstructors surface.type).length
      (found, h.keep s { surface with constructors := some found }
        [.projected surface.type .constructors count])

def nested (h : Host) (s : SurfaceId) : NameTable TypeId × Host :=
  match h.surface? s with
  | none => (.empty, h)
  | some surface =>
    match surface.nested with
    | some table => (table, h)
    | none =>
      let table := h.catalog.nestedTable surface.type
      (table, h.keep s { surface with nested := some table }
        [.projected surface.type .nested table.size])

/-! ## Members by name -/

def field? (h : Host) (s : SurfaceId) (name : String) : Option Field × Host :=
  let (table, h) := h.fields s
  (table.get? name, h)

/-- The methods of a name. The name of constructors finds the constructors. -/
def method? (h : Host) (s : SurfaceId) (name : String) : Option OverloadSet × Host :=
  if name = nameOfConstructors then h.constructors s
  else
    let (table, h) := h.methods s
    (table.get? name, h)

def nested? (h : Host) (s : SurfaceId) (name : String) : Option TypeId × Host :=
  let (table, h) := h.nested s
  (table.get? name, h)

/-! ## Calls and strategies -/

/-- Brings the rules of a call within bounds, and says so if they were not. -/
def adopt (h : Host) (rules : CallRules) : CallRules × Host :=
  (rules.clamped,
    if rules.isValid then h
    else { h with log := h.log ++ [.arityClamped rules.maxArity Score.arityLimit] })

/-- Chooses the overload that a call means, by rules that have been adopted. The strategies of the
parameter types and the distances that this needs are not kept: they depend on the types alone. -/
def select (h : Host) (rules : CallRules) (overloads : OverloadSet) (arguments : List ScriptValue) :
    Except SelectionError Selected × Host :=
  let chosen := rules.select h.types overloads arguments
  (chosen,
    { h with log := h.log ++ selectionNotices overloads.name arguments.length chosen })

/-- The strategy of a type, which is kept. -/
def lookup (h : Host) (t : TypeId) : Entry × Host :=
  let (entry, strategies) := h.strategies.lookup h.types t
  (entry, { h with strategies })

/-- The score of a value for a type. The strategy is kept, the distances that it needs are not. -/
def score (h : Host) (t : TypeId) (v : ScriptValue) : Score × Host :=
  let (score, strategies) := h.strategies.score h.types t v
  (score, { h with strategies })

/-- Converts a value to a type. The strategy is kept, the distances that it needs are not. -/
def convert (h : Host) (t : TypeId) (v : ScriptValue) :
    Except DeliveryError NativeValue × Host :=
  let (converted, strategies) := h.strategies.convert h.types t v
  (converted, { h with strategies })

end Host

end Interop
