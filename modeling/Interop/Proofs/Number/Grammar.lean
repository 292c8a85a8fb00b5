import Interop.Number.Parser
import Mathlib.Data.Int.ModEq
import Mathlib.Data.List.TakeDrop

/-!
# The grammar of numbers

What the text of a number may look like, and what it reads as, stated without a reader.

* `IsNumeral`: the grammar: a sign, and a hexadecimal body or a decimal one.
* `Number.Denotes`: the number that a text of the grammar stands for.
* `Decimal.ofChars?_eq_some_iff`, `signedDigits?_eq_some_iff`: decimals and signed digits are read
  by the grammar.
-/

namespace Interop

/-! ## Texts -/

/-- One or more characters of a class. -/
def IsRun (class? : Char → Bool) (cs : List Char) : Prop := cs ≠ [] ∧ ∀ c ∈ cs, class? c

/-- At most one sign, and whether it is a minus. -/
inductive IsSign : List Char → Bool → Prop
  | absent : IsSign [] false
  | plus : IsSign ['+'] false
  | minus : IsSign ['-'] true

/-- An optional exponent, and its value. -/
inductive IsExponent : List Char → Int → Prop
  | absent : IsExponent [] 0
  | present {mark : Char} {sign digits : List Char} {negative : Bool}
      (hm : mark = 'e' ∨ mark = 'E') (hs : IsSign sign negative) (hd : IsRun isDigit digits) :
      IsExponent (mark :: sign ++ digits) (signed negative (digitsValue digits))

/-- A decimal without a sign: digits, or digits with a point before, between or after them, and an
optional exponent. -/
inductive IsDecimal : List Char → Decimal → Prop
  | whole {digits power : List Char} {e : Int} (hd : IsRun isDigit digits)
      (hp : IsExponent power e) : IsDecimal (digits ++ power) ⟨digitsValue digits, e⟩
  | point {whole fraction power : List Char} {e : Int} (hd : IsRun isDigit (whole ++ fraction))
      (hp : IsExponent power e) :
      IsDecimal (whole ++ '.' :: fraction ++ power)
        ⟨digitsValue (whole ++ fraction), e - fraction.length⟩

/-- The grammar of numbers. -/
inductive IsNumeral : List Char → Prop
  | hex {sign digits : List Char} {negative : Bool} {x : Char} (hs : IsSign sign negative)
      (hx : x = 'x' ∨ x = 'X') (hd : IsRun isHexDigit digits) :
      IsNumeral (sign ++ '0' :: x :: digits)
  | decimal {sign body : List Char} {negative : Bool} {d : Decimal} (hs : IsSign sign negative)
      (hd : IsDecimal body d) : IsNumeral (sign ++ body)

/-- The text is digits alone, and the integer is one of 64 bits. -/
def IsWhole (negative : Bool) (body : List Char) : Prop :=
  IsRun isDigit body ∧ -2 ^ 63 ≤ signed negative (digitsValue body) ∧
    signed negative (digitsValue body) < 2 ^ 63

/-- What a text of the grammar stands for: a hexadecimal body the integer of 64 bits that is
congruent to its value, digits alone their exact value as far as that has 64 bits, and everything
else the nearest double. -/
inductive Number.Denotes : List Char → Number → Prop
  | hex {sign digits : List Char} {negative : Bool} {x : Char} {i : Int64}
      (hs : IsSign sign negative) (hx : x = 'x' ∨ x = 'X') (hd : IsRun isHexDigit digits)
      (hi : i.toInt ≡ signed negative (hexDigitsValue digits) [ZMOD 2 ^ 64]) :
      Denotes (sign ++ '0' :: x :: digits) (.integer i)
  | whole {sign body : List Char} {negative : Bool} {i : Int64} (hs : IsSign sign negative)
      (hw : IsWhole negative body) (hi : i.toInt = signed negative (digitsValue body)) :
      Denotes (sign ++ body) (.integer i)
  | real {sign body : List Char} {negative : Bool} {d : Decimal} (hs : IsSign sign negative)
      (hd : IsDecimal body d) (hw : ¬ IsWhole negative body) :
      Denotes (sign ++ body) (.float ((d.toBinary .double).withSign negative))

/-! ## Runs of digits -/

variable {class? : Char → Bool} {cs sign body digits rest : List Char} {negative : Bool}

theorem isRun_iff : IsRun class? cs ↔ (cs.isEmpty || !cs.all class?) = false := by
  simp [IsRun]

instance : Decidable (IsRun class? cs) := decidable_of_iff _ isRun_iff.symm

instance : Decidable (IsWhole negative body) := inferInstanceAs (Decidable (_ ∧ _))

theorem IsDecimal.of_digits (hd : IsRun isDigit digits) :
    IsDecimal digits ⟨digitsValue digits, 0⟩ := by
  have h := IsDecimal.whole hd .absent
  rwa [List.append_nil] at h

/-- A run is split off as a whole before a character of another class. -/
theorem span_run (hd : ∀ c ∈ digits, class? c) (hr : ∀ c ∈ rest.head?, ¬ class? c) :
    (digits ++ rest).span class? = (digits, rest) := by
  rw [List.span_eq_takeWhile_dropWhile, List.takeWhile_append_of_pos hd,
    List.dropWhile_append_of_pos hd]
  cases rest with
  | nil => simp
  | cons c rest =>
    have hc := hr c rfl
    rw [List.takeWhile_cons_of_neg hc, List.dropWhile_cons_of_neg hc, List.append_nil]

theorem of_span (h : cs.span class? = (digits, rest)) :
    cs = digits ++ rest ∧ (∀ c ∈ digits, class? c) ∧ ∀ c ∈ rest.head?, ¬ class? c := by
  rw [List.span_eq_takeWhile_dropWhile, Prod.mk.injEq] at h
  obtain ⟨rfl, rfl⟩ := h
  refine ⟨List.takeWhile_append_dropWhile.symm, fun c hc => ?_, fun c hc => ?_⟩
  · exact List.all_eq_true.mp (List.all_takeWhile ..) c hc
  · have h := List.head?_dropWhile_not class? cs
    rw [Option.mem_def] at hc
    simpa [hc] using h

/-! ## Signs -/

/-- A text that does not begin with a sign. -/
def Unsigned (cs : List Char) : Prop := ∀ c ∈ cs.head?, c ≠ '+' ∧ c ≠ '-'

theorem splitSign_of_unsigned (h : Unsigned body) : splitSign body = (false, body) := by
  unfold splitSign
  split
  · exact absurd rfl (h '-' rfl).2
  · exact absurd rfl (h '+' rfl).1
  · rfl

theorem splitSign_append (hs : IsSign sign negative) (hb : Unsigned body) :
    splitSign (sign ++ body) = (negative, body) := by
  cases hs with
  | absent => exact splitSign_of_unsigned hb
  | plus => rfl
  | minus => rfl

theorem of_splitSign (h : splitSign cs = (negative, body)) :
    ∃ sign, IsSign sign negative ∧ cs = sign ++ body := by
  unfold splitSign at h
  split at h <;> cases h
  · exact ⟨['-'], .minus, rfl⟩
  · exact ⟨['+'], .plus, rfl⟩
  · exact ⟨[], .absent, rfl⟩

theorem unsigned_of_digits (hd : ∀ c ∈ digits, isDigit c) : Unsigned digits := by
  intro c hc
  have hdig := hd c (List.mem_of_mem_head? hc)
  constructor <;> rintro rfl <;> exact absurd hdig (by decide)

theorem signedDigits?_eq_some_iff {i : Int} : signedDigits? cs = some i ↔
    ∃ sign negative digits, IsSign sign negative ∧ IsRun isDigit digits ∧
      cs = sign ++ digits ∧ i = signed negative (digitsValue digits) := by
  unfold signedDigits?
  constructor
  · intro h
    cases hsplit : splitSign cs with | mk negative digits =>
    obtain ⟨sign, hs, hcs⟩ := of_splitSign hsplit
    simp only [hsplit] at h
    split at h
    · cases h
    · rename_i hrun
      rw [Bool.not_eq_true, ← isRun_iff] at hrun
      exact ⟨sign, _, _, hs, hrun, hcs, (Option.some.inj h).symm⟩
  · rintro ⟨sign, negative, digits, hs, hrun, rfl, rfl⟩
    rw [splitSign_append hs (unsigned_of_digits hrun.2)]
    dsimp only
    rw [isRun_iff.mp hrun]
    rfl

/-! ## Decimals -/

namespace Decimal

theorem exponent?_eq_some_iff {e : Int} : exponent? cs = some e ↔ IsExponent cs e := by
  constructor
  · intro h
    cases cs with
    | nil =>
      cases h
      exact .absent
    | cons c cs =>
      rw [exponent?] at h
      split at h
      · rename_i hc
        obtain ⟨sign, negative, digits, hs, hd, rfl, rfl⟩ := signedDigits?_eq_some_iff.mp h
        exact .present (by simpa using hc) hs hd
      · cases h
  · intro h
    cases h with
    | absent => rfl
    | present hm hs hd =>
      rw [List.cons_append, exponent?, if_pos (by simpa using hm)]
      exact signedDigits?_eq_some_iff.mpr ⟨_, _, _, hs, hd, rfl, rfl⟩

theorem head_exponent {power : List Char} {e : Int} (h : IsExponent power e) :
    ∀ c ∈ power.head?, c = 'e' ∨ c = 'E' := by
  cases h with
  | absent => nofun
  | present hm hs hd =>
    rintro c hc
    cases hc
    exact hm

theorem not_isDigit_head_exponent {power : List Char} {e : Int} (h : IsExponent power e) :
    ∀ c ∈ power.head?, ¬ isDigit c := by
  intro c hc
  rcases head_exponent h c hc with rfl | rfl <;> decide

theorem splitFraction_point {fraction : List Char} (hf : ∀ c ∈ fraction, isDigit c)
    (hr : ∀ c ∈ rest.head?, ¬ isDigit c) :
    splitFraction ('.' :: (fraction ++ rest)) = (fraction, rest) :=
  span_run hf hr

theorem splitFraction_absent (h : ∀ c ∈ rest.head?, c ≠ '.') :
    splitFraction rest = ([], rest) := by
  unfold splitFraction
  split
  · exact absurd rfl (h '.' rfl)
  · rfl

theorem of_splitFraction {fraction power : List Char}
    (h : splitFraction rest = (fraction, power)) :
    (fraction = [] ∧ power = rest) ∨
      rest = '.' :: (fraction ++ power) ∧ ∀ c ∈ fraction, isDigit c := by
  unfold splitFraction at h
  split at h
  · obtain ⟨rfl, hf, -⟩ := of_span h
    exact .inr ⟨rfl, hf⟩
  · cases h
    exact .inl ⟨rfl, rfl⟩

theorem isDecimal_of_ofChars? {d : Decimal} (h : ofChars? cs = some d) : IsDecimal cs d := by
  unfold ofChars? at h
  cases hspan : cs.span isDigit with | mk whole rest =>
  cases hsplit : splitFraction rest with | mk fraction power =>
  simp only [hspan, hsplit] at h
  obtain ⟨rfl, hw, -⟩ := of_span hspan
  split at h
  · cases h
  · rename_i hne
    obtain ⟨e, he, rfl⟩ := Option.map_eq_some_iff.mp h
    rw [exponent?_eq_some_iff] at he
    rw [Bool.and_eq_true, List.isEmpty_iff, List.isEmpty_iff] at hne
    rcases of_splitFraction hsplit with ⟨rfl, rfl⟩ | ⟨rfl, hf⟩
    · have hd : IsDecimal (whole ++ power) ⟨digitsValue whole, e⟩ :=
        .whole ⟨fun hnil => hne ⟨hnil, rfl⟩, hw⟩ he
      simpa only [List.append_nil, List.length_nil, Nat.cast_zero, Int.sub_zero] using hd
    · have hrun : IsRun isDigit (whole ++ fraction) :=
        ⟨by simpa [List.append_eq_nil_iff] using hne, fun c hc =>
          (List.mem_append.mp hc).elim (hw c) (hf c)⟩
      simpa only [List.append_assoc, List.cons_append] using IsDecimal.point hrun he

theorem ofChars?_of_isDecimal {d : Decimal} (h : IsDecimal cs d) : ofChars? cs = some d := by
  cases h with
  | @whole digits power e hd hp =>
    have hdot : ∀ c ∈ power.head?, c ≠ '.' := fun c hc => by
      rcases head_exponent hp c hc with rfl | rfl <;> decide
    have hne : digits.isEmpty = false := List.isEmpty_eq_false_iff.mpr hd.1
    simp only [ofChars?, span_run hd.2 (not_isDigit_head_exponent hp), splitFraction_absent hdot,
      exponent?_eq_some_iff.mpr hp, hne, Bool.false_and, Bool.false_eq_true, if_false,
      Option.map_some, List.append_nil, List.length_nil, Nat.cast_zero, Int.sub_zero]
  | @point whole fraction power e hd hp =>
    have hw : ∀ c ∈ whole, isDigit c := fun c hc => hd.2 c (List.mem_append_left _ hc)
    have hf : ∀ c ∈ fraction, isDigit c := fun c hc => hd.2 c (List.mem_append_right _ hc)
    have hdot : ∀ c ∈ ('.' :: (fraction ++ power)).head?, ¬ isDigit c := by
      rintro c hc
      cases hc
      decide
    have hne : (whole.isEmpty && fraction.isEmpty) = false := by
      simpa [List.append_eq_nil_iff] using hd.1
    simp only [ofChars?, List.append_assoc, List.cons_append, span_run hw hdot,
      splitFraction_point hf (not_isDigit_head_exponent hp), exponent?_eq_some_iff.mpr hp, hne,
      Bool.false_eq_true, if_false, Option.map_some]

/-- Decimals are read by the grammar. -/
theorem ofChars?_eq_some_iff {d : Decimal} : ofChars? cs = some d ↔ IsDecimal cs d :=
  ⟨isDecimal_of_ofChars?, ofChars?_of_isDecimal⟩

end Decimal

end Interop
