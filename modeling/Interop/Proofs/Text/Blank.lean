import Interop.Text.Blank

/-!
# Blanks around a text

* `exists_trimBlanks`: what trimming takes off are blanks on both sides.
* `trimBlanks_surround`: trimming takes off all blanks around a text that holds none.
-/

namespace Interop

variable {before core after text : List Char}

/-- Every character is a blank. -/
def IsBlanks (cs : List Char) : Prop := ∀ c ∈ cs, isBlank c

theorem isBlanks_takeWhile (cs : List Char) : IsBlanks (cs.takeWhile isBlank) := by
  intro c hc
  exact List.all_eq_true.mp (List.all_takeWhile ..) c hc

theorem dropWhile_blanks (hb : IsBlanks before) :
    (before ++ text).dropWhile isBlank = text.dropWhile isBlank :=
  List.dropWhile_append_of_pos hb

theorem dropWhile_of_no_blank (hc : ∀ c ∈ core, ¬ isBlank c) (hne : core ≠ []) :
    (core ++ after).dropWhile isBlank = core ++ after := by
  cases core with
  | nil => exact absurd rfl hne
  | cons c core => exact List.dropWhile_cons_of_neg (hc c List.mem_cons_self)

theorem exists_trimBlanks (text : List Char) :
    ∃ before after, IsBlanks before ∧ IsBlanks after ∧
      text = before ++ trimBlanks text ++ after := by
  refine ⟨text.takeWhile isBlank, ((text.dropWhile isBlank).reverse.takeWhile isBlank).reverse,
    isBlanks_takeWhile _, fun c hc => isBlanks_takeWhile _ c (List.mem_reverse.mp hc), ?_⟩
  rw [trimBlanks, List.append_assoc, ← List.reverse_append, List.takeWhile_append_dropWhile,
    List.reverse_reverse, List.takeWhile_append_dropWhile]

theorem trimBlanks_surround (hb : IsBlanks before) (ha : IsBlanks after)
    (hc : ∀ c ∈ core, ¬ isBlank c) (hne : core ≠ []) :
    trimBlanks (before ++ core ++ after) = core := by
  rw [trimBlanks, List.append_assoc, dropWhile_blanks hb, dropWhile_of_no_blank hc hne,
    List.reverse_append, dropWhile_blanks (fun c hc => ha c (List.mem_reverse.mp hc)),
    ← List.append_nil core.reverse, dropWhile_of_no_blank (fun c h => hc c (List.mem_reverse.mp h))
      (by simpa using hne), List.append_nil, List.reverse_reverse]

end Interop
