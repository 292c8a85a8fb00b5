import Interop.Host.Basic
import Interop.Proofs.Delivery.Store

/-!
# Runs of a host

A run starts with a new host and goes on by operations of any kind in any order. An operation can
only name what is there: the types that have been made, and the fields that have been declared.

* `Host.Step`: one operation. Operations that fail or only read change nothing and are left out.
* `Host.Reachable`: the hosts that runs come to.
* `Host.Sound`: the types are well-formed and the store of strategies agrees with them. It holds of
  every reachable host (`Reachable.sound`).
* `Host.Reachable.score_fst`, `Host.Reachable.convert_fst`: what a reachable host answers about a
  type and a value depends on the types alone.
-/

namespace Interop

/-- The types that a declaration names. -/
def Declaration.mentions : Declaration → List TypeId
  | field _ type _ _ => [type]
  | method _ parameters result _ => parameters ++ result.toList
  | constructor parameters _ => parameters
  | nested type _ => [type]

/-- The types that methods, constructors and nested types name. -/
def Members.mentions (m : Members) : List TypeId :=
  m.methods.flatMap (fun x => x.declaring :: x.parameters ++ x.result.toList) ++
    m.constructors.flatMap (fun c => c.declaring :: c.parameters) ++ m.nested.map NestedType.type

namespace Host

/-- A type of the host has `f` among its members. -/
def Declares (h : Host) (f : Field) : Prop :=
  ∃ t m, h.catalog.members.get? t = some m ∧ f ∈ m.fields

/-- One operation of a host. Fields come into being by `define` only, so `attach` can only hand on
fields that are declared already. -/
inductive Step (h : Host) : Host → Prop
  | declareClass (name : String) (superclass : Option TypeId) (interfaces : List TypeId)
      (hs : ∀ u ∈ superclass, h.types.Has u) (hi : ∀ u ∈ interfaces, h.types.Has u) :
      Step h (h.declareClass name superclass interfaces).2
  | declareInterface (name : String) (extended : List TypeId)
      (he : ∀ u ∈ extended, h.types.Has u) : Step h (h.declareInterface name extended).2
  | arrayType (element : TypeId) (he : h.types.Has element) : Step h (h.arrayType element).2
  | attach {h' : Host} (t : TypeId) (m : Members) (ht : h.types.Has t)
      (hf : ∀ f ∈ m.fields, h.Declares f) (hm : ∀ u ∈ m.mentions, h.types.Has u)
      (ok : h.attach t m = .ok h') : Step h h'
  | define {h' : Host} (t : TypeId) (ds : List Declaration) (ht : h.types.Has t)
      (hd : ∀ d ∈ ds, ∀ u ∈ d.mentions, h.types.Has u) (ok : h.define t ds = .ok h') : Step h h'
  | distance (target : TypeId) (candidate : Option TypeId) (ht : h.types.Has target)
      (hc : ∀ u ∈ candidate, h.types.Has u) : Step h (h.distance target candidate).2
  | relax {h' : Host} (f : Field) (hf : h.Declares f) (ok : h.relax f = .ok h') : Step h h'
  | newSurface (t : TypeId) (ht : h.types.Has t) : Step h (h.newSurface t).2
  | sharedSurface (t : TypeId) (ht : h.types.Has t) : Step h (h.sharedSurface t).2
  | fields (s : SurfaceId) : Step h (h.fields s).2
  | methods (s : SurfaceId) : Step h (h.methods s).2
  | constructors (s : SurfaceId) : Step h (h.constructors s).2
  | nested (s : SurfaceId) : Step h (h.nested s).2
  | adopt (rules : CallRules) : Step h (h.adopt rules).2
  | select (rules : CallRules) (overloads : OverloadSet) (arguments : List ScriptValue) :
      Step h (h.select rules overloads arguments).2
  | lookup (t : TypeId) (ht : h.types.Has t) : Step h (h.lookup t).2
  | score (t : TypeId) (v : ScriptValue) (ht : h.types.Has t) : Step h (h.score t v).2
  | convert (t : TypeId) (v : ScriptValue) (ht : h.types.Has t) : Step h (h.convert t v).2

/-- The hosts that runs come to. -/
inductive Reachable : Host → Prop
  | initial : Reachable .initial
  | step {h h' : Host} (hr : Reachable h) (hs : Step h h') : Reachable h'

variable {h h' : Host}

/-! ## What every run keeps -/

/-- The types are well-formed, and the strategies kept are those of the types. -/
structure Sound (h : Host) : Prop where
  types : h.types.WellFormed
  strategies : h.strategies.Agrees h.types

theorem sound_initial : initial.Sound where
  types := TypeGraph.wellFormed_initial
  strategies := StrategyStore.agrees_initial (.refl _)

/-- The parts of a host that conversions read are those of another one. -/
structure SameDelivery (h h' : Host) : Prop where
  types : h'.types = h.types
  strategies : h'.strategies = h.strategies

/-- An operation on other parts of the host. -/
theorem Sound.congr (hs : h.Sound) (hk : h.SameDelivery h') : h'.Sound where
  types := hk.types ▸ hs.types
  strategies := by rw [hk.types, hk.strategies]; exact hs.strategies

theorem Sound.addType (hs : h.Sound) {grow : TypeGraph → TypeId × TypeGraph}
    (hw : (grow h.types).2.WellFormed) (hg : h.types.GrowsTo (grow h.types).2) :
    (h.addType grow).2.Sound where
  types := hw
  strategies := hs.strategies.growsTo hg

theorem attach_ok {t : TypeId} {m : Members} (ok : h.attach t m = .ok h') : h.SameDelivery h' := by
  unfold attach Catalog.attach at ok
  split at ok <;> cases ok
  exact ⟨rfl, rfl⟩

theorem define_ok {t : TypeId} {ds : List Declaration} (ok : h.define t ds = .ok h') :
    h.SameDelivery h' := by
  unfold define Catalog.define at ok
  split at ok
  · cases ok
  · exact attach_ok ok

theorem relax_ok {f : Field} (ok : h.relax f = .ok h') : h.SameDelivery h' := by
  unfold relax at ok
  split at ok <;> cases ok <;> exact ⟨rfl, rfl⟩

theorem sharedSurface_keeps (h : Host) (t : TypeId) : h.SameDelivery (h.sharedSurface t).2 := by
  unfold sharedSurface
  split <;> exact ⟨rfl, rfl⟩

theorem fields_keeps (h : Host) (s : SurfaceId) : h.SameDelivery (h.fields s).2 := by
  unfold fields
  split
  · exact ⟨rfl, rfl⟩
  · split <;> exact ⟨rfl, rfl⟩

theorem methods_keeps (h : Host) (s : SurfaceId) : h.SameDelivery (h.methods s).2 := by
  unfold methods
  split
  · exact ⟨rfl, rfl⟩
  · split <;> exact ⟨rfl, rfl⟩

theorem constructors_keeps (h : Host) (s : SurfaceId) : h.SameDelivery (h.constructors s).2 := by
  unfold constructors
  split
  · exact ⟨rfl, rfl⟩
  · split <;> exact ⟨rfl, rfl⟩

theorem nested_keeps (h : Host) (s : SurfaceId) : h.SameDelivery (h.nested s).2 := by
  unfold nested
  split
  · exact ⟨rfl, rfl⟩
  · split <;> exact ⟨rfl, rfl⟩

theorem adopt_keeps (h : Host) (rules : CallRules) : h.SameDelivery (h.adopt rules).2 := by
  unfold adopt
  dsimp only
  split <;> exact ⟨rfl, rfl⟩

/-- A look-up can only add to the strategies. -/
theorem Sound.lookup (hs : h.Sound) {t : TypeId} (ht : h.types.Has t) :
    (h.lookup t).2.Sound where
  types := hs.types
  strategies := (hs.strategies.lookup t).2 ht

/-- **Steps.** Every operation keeps the types well-formed and the strategies right. -/
theorem Step.sound (st : Step h h') (hs : h.Sound) : h'.Sound := by
  cases st with
  | declareClass name superclass interfaces hsup hi =>
    exact hs.addType (hs.types.declareClass hsup hi) (TypeGraph.growsTo_declareClass _ _ _ _)
  | declareInterface name extended he =>
    exact hs.addType (hs.types.declareInterface he) (TypeGraph.growsTo_declareInterface _ _ _)
  | arrayType element he =>
    exact hs.addType (hs.types.arrayType he) (TypeGraph.growsTo_arrayType _ _)
  | attach t m ht hf hm ok => exact hs.congr (attach_ok ok)
  | define t ds ht hd ok => exact hs.congr (define_ok ok)
  | distance target candidate ht hc => exact hs.congr ⟨rfl, rfl⟩
  | relax f hf ok => exact hs.congr (relax_ok ok)
  | newSurface t ht => exact hs.congr ⟨rfl, rfl⟩
  | sharedSurface t ht => exact hs.congr (h.sharedSurface_keeps t)
  | fields s => exact hs.congr (h.fields_keeps s)
  | methods s => exact hs.congr (h.methods_keeps s)
  | constructors s => exact hs.congr (h.constructors_keeps s)
  | nested s => exact hs.congr (h.nested_keeps s)
  | adopt rules => exact hs.congr (h.adopt_keeps rules)
  | select rules overloads arguments => exact hs.congr ⟨rfl, rfl⟩
  | lookup t ht => exact hs.lookup ht
  | score t v ht => exact hs.lookup ht
  | convert t v ht => exact hs.lookup ht

/-- A new host with one more array type. -/
def ofArray (element : TypeId) : Host := (initial.arrayType element).2

theorem reachable_ofArray {element : TypeId} (he : initial.types.Has element) :
    (ofArray element).Reachable :=
  .step .initial (.arrayType element he)

/-- A new host with two interfaces, the second of which extends the first, and two classes, the
second of which extends the first. The first class implements the first interface and the second
class the second one. -/
def diamond : Host :=
  let (named, h) := initial.declareInterface "Named" []
  let (labelled, h) := h.declareInterface "Labelled" [named]
  let (base, h) := h.declareClass "Base" none [named]
  (h.declareClass "Derived" base [labelled]).2

theorem reachable_diamond : diamond.Reachable := by
  have named := Reachable.step .initial (.declareInterface "Named" [] (by decide))
  have labelled := named.step (.declareInterface "Labelled" [⟨25⟩] (by decide))
  have base := labelled.step (.declareClass "Base" none [⟨25⟩] (by decide) (by decide))
  exact base.step (.declareClass "Derived" (some ⟨27⟩) [⟨26⟩] (by decide) (by decide))

theorem Reachable.sound (hr : h.Reachable) : h.Sound := by
  induction hr with
  | initial => exact sound_initial
  | step _ st ih => exact st.sound ih

/-- The score of a value is what the types say, whatever the host has done before. -/
theorem Reachable.score_fst (hr : h.Reachable) (t : TypeId) (v : ScriptValue) :
    (h.score t v).1 = h.types.score t v :=
  hr.sound.strategies.score_fst t v

/-- The conversion of a value is what the types say, whatever the host has done before. -/
theorem Reachable.convert_fst (hr : h.Reachable) (t : TypeId) (v : ScriptValue) :
    (h.convert t v).1 = h.types.convert t v :=
  hr.sound.strategies.convert_fst t v

end Host

end Interop
