import Interop.Proofs.Toml.Written

/-!
# Records that are written and read

* `Toml.Table.ofText?_record`: a document with the pairs of a record is read as a table of them.
* `Toml.isDocument_of_recordText?`: a record is written as such a document.
* `Toml.isSome_recordText?_iff`: a record can be written as long as its integers have 64 bits.
-/

namespace Interop.Toml

variable {fields entries : List (String × Node)} {key : String} {n : Node}
  {cs written : List Char} {text : String}

theorem fitsInt64_cons :
    FitsInt64 ((key, n) :: fields) ↔
      (∀ i, n = .integer i → Number.fitsInt64 i) ∧ FitsInt64 fields :=
  List.forall_mem_cons

theorem fitsInt64_count {n : Nat} : Number.fitsInt64 n ↔ n < 2 ^ 63 := by
  rw [fitsInt64_iff]
  omega

theorem IsRecord.tail (h : IsRecord ((key, n) :: fields)) : IsRecord fields where
  distinct := (List.nodup_cons.mp h.distinct).2
  bare e he := h.bare e (List.mem_cons_of_mem _ he)
  simple e he := h.simple e (List.mem_cons_of_mem _ he)

/-! ## Reading -/

theorem Node.IsWritten.reads (h : n.IsWritten written)
    (hfits : ∀ i, n = .integer i → Number.fitsInt64 i) : Reads written n := by
  cases h with
  | text s hs =>
    have hreads := reads_text (unescaped_of_isPlain hs)
    rwa [String.ofList_toList] at hreads
  | count n => exact reads_count (fitsInt64_count.mp (hfits n rfl))

/-- A key that comes later in a list without repetitions is not among those before it. -/
theorem lookup_of_nodup (h : ((entries ++ (key, n) :: fields).map Prod.fst).Nodup) :
    entries.lookup key = none := by
  rw [List.map_append, List.nodup_append] at h
  rw [List.lookup_eq_none_iff]
  intro e he
  rw [bne_iff_ne]
  exact (h.2.2 e.1 (List.mem_map_of_mem he) key List.mem_cons_self).symm

/-- **Lines.** The lines of a document add their pairs to those that came before. The induction is
on the lines; every one of them leaves a shorter text to the next bound. -/
theorem Draft.lines_document (entries : List (String × Node)) (hdoc : IsDocument fields cs)
    (hfits : FitsInt64 fields) (hkeys : ((entries ++ fields).map Prod.fst).Nodup) {fuel : Nat}
    (hfuel : cs.length < fuel) :
    Draft.lines ⟨.mk false false entries, []⟩ fuel cs =
      some ⟨.mk false false (entries ++ fields), []⟩ := by
  induction hdoc generalizing entries fuel with
  | nil =>
    obtain ⟨fuel, rfl⟩ := Nat.exists_eq_add_one_of_ne_zero (Nat.ne_zero_of_lt hfuel)
    rw [List.append_nil]
    rfl
  | @cons key n written before after cs fields hkey hvalue hbefore hafter hrest ih =>
    obtain ⟨fuel, rfl⟩ := Nat.exists_eq_add_one_of_ne_zero (Nat.ne_zero_of_lt hfuel)
    obtain ⟨hvalueFits, hrestFits⟩ := fitsInt64_cons.mp hfits
    have hsplit : entries ++ (key, n) :: fields = entries ++ [(key, n)] ++ fields := by simp
    have hshort : cs.length < fuel := by
      simp only [List.length_append, List.length_cons] at hfuel
      omega
    rw [Draft.lines_pair _ _ (isRun_of_isBareKey hkey) (hvalue.reads hvalueFits) hbefore hafter,
      String.ofList_toList, Draft.put?_new n (lookup_of_nodup hkeys), Option.bind_some, hsplit]
    exact ih _ hrestFits (hsplit ▸ hkeys) hshort

/-- No byte order mark comes before a key. -/
theorem IsDocument.head_ne (hdoc : IsDocument fields cs) (rest : List Char) :
    cs ≠ '\uFEFF' :: rest := by
  cases hdoc with
  | nil => rintro ⟨⟩
  | @cons key _ _ _ _ _ _ hkey _ _ _ _ =>
    obtain ⟨hne, hall⟩ := isRun_of_isBareKey hkey
    obtain ⟨c, tail, hcons⟩ := List.exists_cons_of_ne_nil hne
    rw [hcons]
    rintro ⟨⟩
    exact absurd (hall _ (hcons ▸ List.mem_cons_self)) (by decide)

/-- **Reading.** A document with the pairs of a record is a table of these pairs. -/
theorem Table.ofText?_record (hr : IsRecord fields) (hfits : FitsInt64 fields)
    (hdoc : IsDocument fields text.toList) :
    Table.ofText? text = some (.mk false false fields) := by
  have hlines : Draft.empty.lines (text.toList.length + 1) text.toList =
      some ⟨.mk false false fields, []⟩ :=
    Draft.lines_document [] hdoc hfits hr.distinct (Nat.lt_succ_self _)
  unfold Table.ofText?
  split
  · rename_i heq
    exact absurd heq (hdoc.head_ne _)
  · show (Draft.empty.lines (text.toList.length + 1) text.toList).map _ = _
    rw [hlines]
    rfl

/-! ## Writing -/

theorem Node.isWritten_of_written? (h : n.written? = some written) : n.IsWritten written := by
  unfold Node.written? at h
  split at h
  · split at h <;> cases h
    rename_i hs
    exact .text _ hs
  · split at h <;> cases h
    rename_i i hi
    obtain ⟨n, rfl⟩ := Int.eq_ofNat_of_zero_le (of_decide_eq_true (Bool.and_eq_true_iff.mp hi).1)
    exact .count n
  · cases h

theorem isDocument_of_recordLines? (h : recordLines? fields = some cs) : IsDocument fields cs := by
  induction fields generalizing cs with
  | nil =>
    cases h
    exact .nil
  | cons e fields ih =>
    obtain ⟨key, n⟩ := e
    rw [recordLines?] at h
    split at h
    · rename_i hkey
      obtain ⟨written, hwritten, h⟩ := Option.bind_eq_some_iff.mp h
      obtain ⟨rest, hrest, h⟩ := Option.bind_eq_some_iff.mp h
      cases h
      have hspace : ∀ c ∈ [' '], isSpace c := List.forall_mem_singleton.mpr rfl
      exact .cons hkey (Node.isWritten_of_written? hwritten) hspace hspace (ih hrest)
    · cases h

/-- **Writing.** What is written for a record is a document with its pairs. -/
theorem isDocument_of_recordText? (h : recordText? fields = some text) :
    IsDocument fields text.toList := by
  obtain ⟨cs, hlines, rfl⟩ := Option.map_eq_some_iff.mp h
  rw [String.toList_ofList]
  exact isDocument_of_recordLines? hlines

theorem Node.isSome_written?_iff
    (hsimple : (∃ s, isPlain s ∧ n = .text s) ∨ ∃ k : Nat, n = .integer k) :
    n.written?.isSome ↔ ∀ i, n = .integer i → Number.fitsInt64 i := by
  obtain ⟨s, hs, rfl⟩ | ⟨k, rfl⟩ := hsimple
  · simp [written?, hs]
  · simp [written?]

/-- **Range.** A record is written unless a count in it is too large. -/
theorem isSome_recordText?_iff (hr : IsRecord fields) :
    (recordText? fields).isSome ↔ FitsInt64 fields := by
  rw [recordText?, Option.isSome_map]
  induction fields with
  | nil => simp [recordLines?, FitsInt64]
  | cons e fields ih =>
    obtain ⟨key, n⟩ := e
    have hvalue := Node.isSome_written?_iff (hr.simple _ List.mem_cons_self)
    rw [fitsInt64_cons, ← ih hr.tail, ← hvalue, recordLines?, if_pos (hr.bare _ List.mem_cons_self)]
    cases n.written? <;> cases recordLines? fields <;> simp

end Interop.Toml
