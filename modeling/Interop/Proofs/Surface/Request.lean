import Interop.Proofs.Surface.Once

/-!
# First requests

A surface waits for a part until it is first asked for it. What it finds by name then is what the
members say, and it finds the same in every later host.

* `Host.Awaits`: a surface that has not been asked for a part. A new surface awaits all of them
  (`awaits_newSurface`).
* `Host.Awaits.ask_fst`, `Host.Awaits.ask_later`: the answer now, and the answers later.
* `Host.Awaits.log_ask`: what is reported.
-/

namespace Interop.Host

variable {h h' : Host} {s : SurfaceId} {t : TypeId} {p : Part}

/-- `s` is a surface of the type `t` that has not been asked for the part. -/
def Awaits (h : Host) (s : SurfaceId) (t : TypeId) (p : Part) : Prop :=
  ∃ surface, h.surface? s = some surface ∧ surface.type = t ∧ surface.part? p = none

theorem awaits_newSurface (h : Host) (t : TypeId) (p : Part) :
    (h.newSurface t).2.Awaits (h.newSurface t).1 t p :=
  ⟨.ofType t, h.surface?_newSurface_self t, rfl, Surface.part?_ofType t p⟩

namespace Awaits

theorem ask_fst (ha : h.Awaits s t p) : (h.ask s p).1 = h.catalog.project t p := by
  obtain ⟨surface, hs, rfl, hp⟩ := ha
  exact (ask_of_new hs hp).1

/-- Nothing happens when the part is asked for again. -/
theorem ask_later (ha : h.Awaits s t p) (hl : (h.ask s p).2.LeadsTo h') :
    h'.ask s p = ((h.ask s p).1, h') := by
  obtain ⟨surface, hs, -⟩ := ha
  exact hl.extends.ask_eq (part?_ask hs p)

theorem log_ask (ha : h.Awaits s t p) :
    (h.ask s p).2.log =
      h.log ++ h.omissions t p ++ [.projected t p (p.size (h.catalog.project t p))] := by
  obtain ⟨surface, hs, rfl, hp⟩ := ha
  exact log_ask_of_new hs hp

end Awaits

/-! ## Members by name -/

theorem field?_eq (h : Host) (s : SurfaceId) (name : String) :
    h.field? s name = ((h.ask s .fields).1.get? name, (h.ask s .fields).2) := rfl

theorem nested?_eq (h : Host) (s : SurfaceId) (name : String) :
    h.nested? s name = ((h.ask s .nested).1.get? name, (h.ask s .nested).2) := rfl

theorem method?_of_ne {name : String} (hn : name ≠ nameOfConstructors) :
    h.method? s name = ((h.ask s .methods).1.get? name, (h.ask s .methods).2) := by
  rw [method?, if_neg hn]
  rfl

theorem method?_constructors (h : Host) (s : SurfaceId) :
    h.method? s nameOfConstructors = h.ask s .constructors := by
  rw [method?, if_pos rfl]
  rfl

end Interop.Host
