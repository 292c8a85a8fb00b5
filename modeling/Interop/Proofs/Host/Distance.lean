import Interop.Proofs.Host.Effect
import Interop.Proofs.Types.Path
import Interop.Proofs.Types.Recursion

/-!
# Distances in a run

A host keeps the distances that it has measured. Types that come later have edges up to earlier
ones only, so a distance that was right when it was kept stays right.

* `Host.Reachable.distance_fst`: a host answers with the distance, whatever was asked before.
* `Host.Reachable.distance_shortest`: the answers are the lengths of shortest paths up to the cap,
  and so is everything that is kept, then and later.
* `Host.Remembered`: a memo that the recursion over supertypes fills in a run, a pair at a time.
  `Host.Remembered.agrees`: what it holds is what the host answers and keeps.
-/

namespace Interop

namespace Host

variable {h h' : Host}

/-- What was measured before makes no difference. -/
theorem Reachable.distance_fst (hr : h.Reachable) (target : TypeId) (candidate : Option TypeId) :
    (h.distance target candidate).1 = h.types.distance target candidate :=
  (hr.coherent.distances.query target candidate).1

/-- An entry of the memo is the distance between types of the host. -/
theorem Reachable.distance?_eq (hr : h.Reachable) {target candidate : TypeId} {d : Nat}
    (he : h.distances.distance? target candidate = some d) :
    d = h.types.distance target (some candidate) :=
  (hr.coherent.distances.distance?_eq he).2

/-- **Shortest paths.** The distance of no type is the cap, and that of a type is the length of a
shortest path up to the target, as far as it is below the cap. An entry of the memo is never
changed, and it is the distance in every later host. -/
theorem Reachable.distance_shortest (hr : h.Reachable) (target : TypeId) :
    (h.distance target none).1 = unreachable ∧
      (∀ candidate, h.types.IsDistance target candidate (h.distance target (some candidate)).1) ∧
      ∀ candidate d, h.distances.distance? target candidate = some d → ∀ h', h.LeadsTo h' →
        h'.distances.distance? target candidate = some d ∧ h'.types.IsDistance target candidate d ∧
          (h'.distance target (some candidate)).1 = d := by
  refine ⟨rfl, fun candidate => ?_, fun candidate d he h' hl => ?_⟩
  · rw [hr.distance_fst]
    exact hr.sound.types.isDistance target candidate
  · have hr' := hr.leadsTo hl
    have he' := hl.extends.distances target candidate d he
    have hd := hr'.distance?_eq he'
    refine ⟨he', ?_, ?_⟩
    · rw [hd]
      exact hr'.sound.types.isDistance target candidate
    · rw [hr'.distance_fst, hd]

/-- Two paths lead from the last class up to the first interface. Their length is measured, and is
right also when there is an array of that class. -/
theorem distance_shortest_diamond :
    let measured := (diamond.distance ⟨25⟩ (some ⟨28⟩)).2
    let grown := (measured.arrayType ⟨28⟩).2
    measured.Reachable ∧ measured.LeadsTo grown ∧
      measured.distances.distance? ⟨25⟩ ⟨28⟩ = some 2 ∧
      grown.distances.distance? ⟨25⟩ ⟨28⟩ = some 2 ∧
      grown.types.IsDistance ⟨25⟩ ⟨28⟩ 2 ∧ measured.types.IsDistance ⟨25⟩ ⟨27⟩ 1 := by
  intro measured grown
  have hr : measured.Reachable :=
    reachable_diamond.step (.distance ⟨25⟩ (some ⟨28⟩) (by decide) (by decide))
  have hl : measured.LeadsTo grown := .single (.arrayType ⟨28⟩ (by decide))
  have hentry : measured.distances.distance? ⟨25⟩ ⟨28⟩ = some 2 := by decide
  have hanswer : (measured.distance ⟨25⟩ (some ⟨27⟩)).1 = 1 := by decide
  obtain ⟨-, answers, entries⟩ := hr.distance_shortest ⟨25⟩
  obtain ⟨hkept, hright, -⟩ := entries ⟨28⟩ 2 hentry grown hl
  exact ⟨hr, hl, hentry, hkept, hright, hanswer ▸ answers ⟨27⟩⟩

/-! ## Distances by recursion -/

/-- What the recursion over supertypes may have kept for a target when a run comes to `h`: it starts
with nothing, and measures types of the host between the operations. -/
inductive Remembered (target : TypeId) : Host → TypeMap Nat → Prop
  | initial : Remembered target .initial .empty
  | step {h h' : Host} {memo : TypeMap Nat} (hm : Remembered target h memo) (st : Step h h') :
      Remembered target h' memo
  | measure {h : Host} {memo memo' : TypeMap Nat} {candidate : TypeId} {d : Nat}
      (hm : Remembered target h memo) (hc : h.types.Has candidate)
      (ok : h.types.measure target h.types.size memo (some candidate) = some (d, memo')) :
      Remembered target h memo'

namespace Remembered

variable {target candidate : TypeId} {memo : TypeMap Nat}

theorem reachable (hm : Remembered target h memo) : h.Reachable := by
  induction hm with
  | initial => exact .initial
  | step _ st ih => exact ih.step st
  | measure _ _ _ ih => exact ih

/-- What is kept is right and belongs to types of the host, so that it stays right. -/
theorem right (hm : Remembered target h memo) :
    h.types.Remembers target memo ∧ ∀ t, (memo.get? t).isSome → h.types.Has t := by
  induction hm with
  | initial => exact ⟨TypeGraph.remembers_empty _ _, nofun⟩
  | @step h h' memo hm st ih =>
    have hgrows := st.effect.extends.types
    refine ⟨fun t d hd => ?_, fun t ht => hgrows.has (ih.2 t ht)⟩
    have ht : h.types.Has t := ih.2 t (Option.isSome_of_eq_some hd)
    rw [ih.1 t d hd, hm.reachable.sound.types.distance_growsTo
      (hm.reachable.step st).sound.types hgrows ht]
  | @measure h memo memo' candidate d hm hc ok ih =>
    obtain ⟨_, hmeasure, hright, hadds⟩ :=
      hm.reachable.sound.types.measure_eq target hc memo ih.1
    cases ok.symm.trans hmeasure
    refine ⟨hright, fun t ht => ?_⟩
    by_cases hold : memo.get? t = none
    · exact hadds t hold ht
    · exact ih.2 t (Option.isSome_iff_ne_none.mpr hold)

/-- **Memos.** In every run the recursion finds what the host answers, whatever it has kept so far.
What it keeps is what the host answers, and what the host keeps for the same pair. -/
theorem agrees (hm : Remembered target h memo) (hc : h.types.Has candidate) :
    (∃ memo', h.types.measure target h.types.size memo (some candidate) =
        some ((h.distance target (some candidate)).1, memo') ∧ Remembered target h memo') ∧
      ∀ d, memo.get? candidate = some d → (h.distance target (some candidate)).1 = d ∧
        ∀ d', h.distances.distance? target candidate = some d' → d' = d := by
  have hanswer := hm.reachable.distance_fst target (some candidate)
  obtain ⟨hright, -⟩ := hm.right
  obtain ⟨memo', hmeasure, -, -⟩ :=
    hm.reachable.sound.types.measure_eq target hc memo hright
  refine ⟨⟨memo', hanswer ▸ hmeasure, hm.measure hc hmeasure⟩, fun d hd => ?_⟩
  rw [hanswer, hright candidate d hd]
  exact ⟨rfl, fun d' hd' => hm.reachable.distance?_eq hd'⟩

end Remembered

end Host

end Interop
