import Interop.Proofs.Number.Text
import Interop.Toml.Document
import Interop.Toml.Record

/-!
# Written TOML

A document of pairs, each on a line of its own, is read pair by pair. A line has a bare key, an
equals sign with any spaces around it, and a value.

* `Toml.Reads`: the characters of a value that ends with its line.
* `Toml.reads_text`, `Toml.reads_count`: strings without escapes and natural numbers.
* `Toml.Draft.lines_pair`, `Toml.Draft.put?_new`: a document that begins with a line for a pair, and
  what the pair adds.
-/

namespace Interop.Toml

variable {cs key digits rest : List Char} {c : Char} {n : Nat}

/-! ## Characters -/

/-- The characters that a string on one line holds as they are. -/
def Unescaped (cs : List Char) : Prop := ∀ c ∈ cs, isPrintable c ∧ c ≠ '"' ∧ c ≠ '\\'

theorem unescaped_of_isPlain {s : String} (h : isPlain s) : Unescaped s.toList := by
  intro c hc
  simp only [isPlain, List.all_eq_true, Bool.and_eq_true, decide_eq_true_eq] at h
  obtain ⟨⟨⟨hprint, -⟩, hquote⟩, hslash⟩ := h c hc
  exact ⟨hprint, hquote, hslash⟩

theorem isRun_of_isBareKey {key : String} (h : isBareKey key) :
    IsRun isBareKeyChar key.toList := by
  rw [isBareKey, Bool.and_eq_true, Bool.not_eq_true', List.isEmpty_eq_false_iff,
    List.all_eq_true] at h
  exact h

/-- A character of one class is none of those outside of it. -/
theorem ne_of_class {class? : Char → Bool} {d : Char} (hc : class? c) (hd : class? d = false) :
    c ≠ d := by
  rintro rfl
  rw [hd] at hc
  cases hc

theorem isScalarChar_of_isDigit (h : isDigit c) : isScalarChar c := by
  simp [isScalarChar, isBareKeyChar, h]

theorem isSpace_eq_false {class? : Char → Bool} (hc : class? c) (hspace : class? ' ' = false)
    (htab : class? '\t' = false) : isSpace c = false := by
  simp [isSpace, ne_of_class hc hspace, ne_of_class hc htab]

theorem skipSpaces_append {spaces : List Char} (h : ∀ c ∈ spaces, isSpace c) :
    skipSpaces (spaces ++ cs) = skipSpaces cs :=
  List.dropWhile_append_of_pos h

theorem skipSpaces_of_head (h : ∀ c ∈ cs.head?, isSpace c = false) : skipSpaces cs = cs := by
  cases cs with
  | nil => rfl
  | cons c cs => rw [skipSpaces, List.dropWhile_cons_of_neg (by rw [h c rfl]; decide)]

/-! ## Values -/

/-- Spaces do not come first, and a reader finds the node up to the end of the line. -/
structure Reads (cs : List Char) (n : Node) : Prop where
  start : ∀ c ∈ cs.head?, isSpace c = false
  value : ∀ rest, value? (nestingLimit - 1) (cs ++ '\n' :: rest) = some (n, '\n' :: rest)

/-- What begins neither an array nor an inline table is a string or a scalar. -/
theorem value?_single (depth : Nat) (harray : c ≠ '[') (htable : c ≠ '{') :
    value? depth (c :: cs) =
      match string? (c :: cs) with
      | some (s, cs) => some (.text s, cs)
      | none =>
        (scalar? (scalarChars (c :: cs)).1).map fun n => (n, (scalarChars (c :: cs)).2) := by
  rw [value?.eq_def]
  split
  · rename_i h
    exact absurd (List.cons.inj h).1 harray
  · rename_i h
    exact absurd (List.cons.inj h).1 htable
  · rfl

/-! ## Strings -/

theorem basicString_append (hp : Unescaped cs) (found rest : List Char) :
    basicString found (cs ++ '"' :: rest) = some (String.ofList (found.reverse ++ cs), rest) := by
  induction cs generalizing found with
  | nil => rw [List.nil_append, basicString, List.append_nil]
  | cons c cs ih =>
    obtain ⟨hc, hquote, hslash⟩ := hp c List.mem_cons_self
    rw [List.cons_append, basicString, if_pos hc, ih fun d hd => hp d (List.mem_cons_of_mem _ hd)]
    · rw [List.reverse_cons, List.append_assoc, List.singleton_append]
    all_goals
      intros
      contradiction

theorem string?_append (hp : Unescaped cs) (h : ∀ c ∈ rest.head?, c ≠ '"') :
    string? ('"' :: (cs ++ '"' :: rest)) = some (String.ofList cs, rest) := by
  have hlong : ∀ more, cs ++ '"' :: rest ≠ '"' :: '"' :: more := by
    intro more heq
    cases cs with
    | nil => exact h '"' (by rw [(List.cons.inj heq).2]; rfl) rfl
    | cons c cs => exact (hp c List.mem_cons_self).2.1 (List.cons.inj heq).1
  rw [string?, basicString_append hp]
  · rfl
  · exact hlong

theorem string?_of_head (hquote : c ≠ '"') (hapostrophe : c ≠ '\'') : string? (c :: cs) = none := by
  rw [string?] <;> simp [hquote, hapostrophe]

/-- A string without escapes, between quotes. -/
theorem reads_text (hp : Unescaped cs) :
    Reads ('"' :: (cs ++ ['"'])) (.text (String.ofList cs)) where
  start c hc := by
    cases hc
    rfl
  value rest := by
    have heq : '"' :: (cs ++ ['"']) ++ '\n' :: rest = '"' :: (cs ++ '"' :: '\n' :: rest) := by simp
    rw [heq, value?_single _ (by decide) (by decide), string?_append hp (by rintro c ⟨⟩; decide)]

/-! ## Natural numbers -/

theorem expect_of_digits (hd : ∀ c ∈ cs, isDigit c) (hc : isDigit c = false) :
    expect c cs = none := by
  cases cs with
  | nil => rfl
  | cons d cs => rw [expect, if_neg (ne_of_class (hd d List.mem_cons_self) hc).symm]

theorem eq_drop_of_fixedDigits {count least greatest value : Nat}
    (h : fixedDigits count least greatest cs = some (value, rest)) : rest = cs.drop count := by
  unfold fixedDigits at h
  dsimp only at h
  split at h <;> cases h
  rfl

/-- Where there are digits only, no other character follows the first of them. -/
theorem expect_of_fixedDigits {count least greatest value : Nat} (hd : ∀ c ∈ cs, isDigit c)
    (hc : isDigit c = false) (h : fixedDigits count least greatest cs = some (value, rest)) :
    expect c rest = none := by
  rw [eq_drop_of_fixedDigits h]
  exact expect_of_digits (fun d hmem => hd d (List.mem_of_mem_drop hmem)) hc

/-- A date has a hyphen after the year. -/
theorem date?_of_digits (hd : ∀ c ∈ cs, isDigit c) : date? cs = none := by
  cases h : fixedDigits 4 0 9999 cs with
  | none => simp [date?, h]
  | some year =>
    have hrest : expect '-' year.2 = none := expect_of_fixedDigits hd (by decide) h
    simp [date?, h, hrest]

/-- A time of day has a colon after the hour. -/
theorem timeOfDay?_of_digits (hd : ∀ c ∈ cs, isDigit c) : timeOfDay? cs = none := by
  cases h : fixedDigits 2 0 23 cs with
  | none => simp [timeOfDay?, h]
  | some hour =>
    have hrest : expect ':' hour.2 = none := expect_of_fixedDigits hd (by decide) h
    simp [timeOfDay?, h, hrest]

theorem isTime_of_digits (hd : ∀ c ∈ cs, isDigit c) : isTime cs = false := by
  rw [isTime, date?_of_digits hd]
  simp [timeOfDay?_of_digits hd]

theorem plainDigits_of_digits (hd : ∀ c ∈ digits, isDigit c) :
    plainDigits isDigit true digits = some digits := by
  induction digits with
  | nil => rfl
  | cons c digits ih =>
    rw [plainDigits, if_pos (hd c List.mem_cons_self),
      ih fun d hmem => hd d (List.mem_cons_of_mem _ hmem)]
    rfl

theorem plainDigits_of_isRun (hd : IsRun isDigit digits) :
    plainDigits isDigit false digits = some digits := by
  obtain ⟨c, digits, rfl⟩ := List.exists_cons_of_ne_nil hd.1
  rw [plainDigits, if_pos (hd.2 c List.mem_cons_self),
    plainDigits_of_digits fun d hmem => hd.2 d (List.mem_cons_of_mem _ hmem)]
  rfl

/-- The digits of a positive number begin with none of the zeros. -/
theorem head?_toDigits (hn : 0 < n) : (Nat.toDigits 10 n).head? ≠ some '0' := by
  induction n using Nat.strongRecOn with
  | ind n ih =>
    rw [Nat.toDigits_eq_if (by decide)]
    split
    · rw [List.head?_cons, Ne, Option.some.injEq, Nat.digitChar_eq_zero]
      omega
    · obtain ⟨c, ds, hcons⟩ := List.exists_cons_of_ne_nil (isRun_toDigits (n / 10)).1
      have hhead := ih (n / 10) (by omega) (by omega)
      rw [hcons] at hhead ⊢
      exact hhead

theorem wholeDigits?_toDigits (n : Nat) :
    wholeDigits? (Nat.toDigits 10 n) = some (Nat.toDigits 10 n) := by
  by_cases hn : n = 0
  · rw [hn, Nat.toDigits_zero]
    rfl
  · unfold wholeDigits?
    split
    · rename_i heq
      rw [heq]
    · rename_i heq
      have hhead := head?_toDigits (Nat.pos_of_ne_zero hn)
      rw [heq] at hhead
      exact absurd rfl hhead
    · exact plainDigits_of_isRun (isRun_toDigits n)

theorem integer?_toDigits (hn : n < 2 ^ 63) :
    integer? (Nat.toDigits 10 n) = some (n : Int) := by
  have hd := (isRun_toDigits n).2
  have hfits : Number.fitsInt64 (n : Int) := fitsInt64_iff.mpr ⟨by omega, by omega⟩
  -- no mark of another base stands after the first digit
  have hbase : ∀ {x : Char} (cs : List Char), isDigit x = false →
      Nat.toDigits 10 n ≠ '0' :: x :: cs := by
    intro x cs hx heq
    rw [heq] at hd
    exact ne_of_class (hd x (List.mem_cons_of_mem _ List.mem_cons_self)) hx rfl
  rw [integer?]
  · simp only [splitSign_of_unsigned (unsigned_of_digits hd), wholeDigits?_toDigits,
      Option.bind_eq_bind, Option.bind_some, digitsValue_toDigits]
    show ofInt? (n : Int) = _
    rw [ofInt?, if_pos hfits]
  · exact fun cs => hbase cs (by decide)
  · exact fun cs => hbase cs (by decide)
  · exact fun cs => hbase cs (by decide)

theorem scalar?_toDigits (hn : n < 2 ^ 63) :
    scalar? (Nat.toDigits 10 n) = some (.integer n) := by
  have hd := (isRun_toDigits n).2
  have hne : ∀ {c : Char} {cs : List Char}, isDigit c = false → Nat.toDigits 10 n ≠ c :: cs := by
    intro c cs hc heq
    rw [heq] at hd
    exact ne_of_class (hd c List.mem_cons_self) hc rfl
  rw [scalar?, if_neg (hne (by decide)), if_neg (hne (by decide)), isTime_of_digits hd,
    integer?_toDigits hn]
  rfl

/-- A natural number below the integers' bound, in decimal digits. -/
theorem reads_count (hn : n < 2 ^ 63) :
    Reads (Nat.toDigits 10 n) (.integer n) where
  start c hc :=
    isSpace_eq_false ((isRun_toDigits n).2 c (List.mem_of_mem_head? hc)) (by decide) (by decide)
  value rest := by
    have hd := (isRun_toDigits n).2
    have hspan : (Nat.toDigits 10 n ++ '\n' :: rest).span isScalarChar =
        (Nat.toDigits 10 n, '\n' :: rest) :=
      span_run (fun c hc => isScalarChar_of_isDigit (hd c hc)) (by rintro c ⟨⟩; decide)
    have hchars : scalarChars (Nat.toDigits 10 n ++ '\n' :: rest) =
        (Nat.toDigits 10 n, '\n' :: rest) := by
      rw [scalarChars, hspan]
      rfl
    obtain ⟨c, ds, hcons⟩ := List.exists_cons_of_ne_nil (isRun_toDigits n).1
    have hc : isDigit c := hd c (hcons ▸ List.mem_cons_self)
    have hstring : string? (Nat.toDigits 10 n ++ '\n' :: rest) = none := by
      rw [hcons, List.cons_append]
      exact string?_of_head (ne_of_class hc (by decide)) (ne_of_class hc (by decide))
    have hstart : c ≠ '[' ∧ c ≠ '{' := ⟨ne_of_class hc (by decide), ne_of_class hc (by decide)⟩
    rw [hcons, List.cons_append, value?_single _ hstart.1 hstart.2, ← List.cons_append, ← hcons,
      hstring, hchars, scalar?_toDigits hn]
    rfl

/-! ## Lines -/

theorem simpleKey?_append (hk : IsRun isBareKeyChar key)
    (h : ∀ c ∈ rest.head?, ¬ isBareKeyChar c) :
    simpleKey? (key ++ rest) = some (String.ofList key, rest) := by
  have hspan := span_run hk.2 h
  obtain ⟨c, key, rfl⟩ := List.exists_cons_of_ne_nil hk.1
  have hc := hk.2 c List.mem_cons_self
  rw [List.cons_append] at hspan ⊢
  rw [simpleKey?, hspan]
  · rfl
  · exact fun cs heq => ne_of_class hc (by decide) (List.cons.inj heq).1
  · exact fun cs heq => ne_of_class hc (by decide) (List.cons.inj heq).1

variable {before after written : List Char}

/-- A bare key before an equals sign has one part. -/
theorem keyPath_bare (hk : IsRun isBareKeyChar key) (hbefore : ∀ c ∈ before, isSpace c)
    (rest : List Char) :
    keyPath (key ++ (before ++ '=' :: rest)) = some ([], String.ofList key, '=' :: rest) := by
  have hstart : ∀ c ∈ (key ++ (before ++ '=' :: rest)).head?, isSpace c = false := by
    obtain ⟨c, key, rfl⟩ := List.exists_cons_of_ne_nil hk.1
    rintro c ⟨⟩
    exact isSpace_eq_false (hk.2 c List.mem_cons_self) (by decide) (by decide)
  have hpart : simpleKey? (key ++ (before ++ '=' :: rest)) =
      some (String.ofList key, before ++ '=' :: rest) := by
    refine simpleKey?_append hk ?_
    cases before with
    | nil =>
      rintro c ⟨⟩
      decide
    | cons c before =>
      rintro c ⟨⟩ hkey
      exact absurd (hbefore c List.mem_cons_self)
        (Bool.eq_false_iff.mp (isSpace_eq_false hkey (by decide) (by decide)))
  have hequals : skipSpaces (before ++ '=' :: rest) = '=' :: rest := by
    rw [skipSpaces_append hbefore]
    exact skipSpaces_of_head (by rintro c ⟨⟩; decide)
  rw [keyPath, nestingLimit, keyParts, skipSpaces_of_head hstart, hpart, Option.bind_some]
  simp only [hequals]
  rfl

theorem pair?_bare {n : Node} (hk : IsRun isBareKeyChar key) (hv : Reads written n)
    (hbefore : ∀ c ∈ before, isSpace c) (hafter : ∀ c ∈ after, isSpace c) (rest : List Char) :
    pair? (value? (nestingLimit - 1))
        (key ++ (before ++ '=' :: (after ++ (written ++ '\n' :: rest)))) =
      some (([], String.ofList key, n), '\n' :: rest) := by
  have hstart : skipSpaces (after ++ (written ++ '\n' :: rest)) = written ++ '\n' :: rest := by
    rw [skipSpaces_append hafter]
    refine skipSpaces_of_head fun c hc => ?_
    cases written with
    | nil =>
      cases hc
      rfl
    | cons d written => exact hv.start c hc
  rw [pair?, keyPath_bare hk hbefore]
  simp only [Option.bind_eq_bind, Option.bind_some, expect, if_true, hstart, hv.value]
  rfl

theorem lineEnd?_newline (rest : List Char) : lineEnd? ('\n' :: rest) = some rest := rfl

namespace Draft

/-- What begins with no bracket is a pair. -/
theorem statement?_pair {n : Node} (d : Draft) (hbracket : c ≠ '[')
    (hp : pair? (value? (nestingLimit - 1)) (c :: cs) = some (([], String.ofList key, n),
      '\n' :: rest)) :
    d.statement? (c :: cs) = (d.put? [] (String.ofList key) n).map fun d => (d, rest) := by
  rw [statement?, hp]
  · simp only [Option.bind_eq_bind, Option.bind_some, lineEnd?_newline]
    cases d.put? [] (String.ofList key) n <;> rfl
  · exact fun cs heq => hbracket (List.cons.inj heq).1
  · exact fun cs heq => hbracket (List.cons.inj heq).1

/-- A pair with a new key comes last in the table of a document without headers. -/
theorem put?_new {entries : List (String × Node)} {key : String} (n : Node)
    (h : entries.lookup key = none) :
    put? ⟨.mk false false entries, []⟩ [] key n =
      some ⟨.mk false false (entries ++ [(key, n)]), []⟩ := by
  have hget : (Table.mk false false entries).get? key = none := h
  simp [put?, Table.change, Table.put?, Table.dotted, Table.add?, Table.set, hget,
    Table.implicit, Table.entries]

/-- A document that begins with a line for a pair goes on with the pair added. -/
theorem lines_pair {n : Node} (d : Draft) (fuel : Nat) (hk : IsRun isBareKeyChar key)
    (hv : Reads written n) (hbefore : ∀ c ∈ before, isSpace c) (hafter : ∀ c ∈ after, isSpace c)
    (rest : List Char) :
    d.lines (fuel + 1) (key ++ (before ++ '=' :: (after ++ (written ++ '\n' :: rest)))) =
      (d.put? [] (String.ofList key) n).bind fun d => d.lines fuel rest := by
  have hpair := pair?_bare hk hv hbefore hafter rest
  obtain ⟨c, tail, rfl⟩ := List.exists_cons_of_ne_nil hk.1
  have hc := hk.2 c List.mem_cons_self
  rw [List.cons_append] at hpair ⊢
  have hstart : ∀ cs, skipSpaces (c :: cs) = c :: cs := by
    refine fun cs => skipSpaces_of_head ?_
    rintro c ⟨⟩
    exact isSpace_eq_false hc (by decide) (by decide)
  have hmark : (c = '#' || c = '\n' || c = '\r') = false := by
    simp [ne_of_class hc (by decide : isBareKeyChar '#' = false),
      ne_of_class hc (by decide : isBareKeyChar '\n' = false),
      ne_of_class hc (by decide : isBareKeyChar '\r' = false)]
  rw [lines, hstart]
  simp only [hmark, Bool.false_eq_true, if_false,
    statement?_pair d (ne_of_class hc (by decide)) hpair, Option.bind_map]
  rfl

end Draft

end Interop.Toml
