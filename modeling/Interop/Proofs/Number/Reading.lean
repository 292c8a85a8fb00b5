import Interop.Proofs.Number.Grammar
import Interop.Proofs.Text.Blank
import Interop.Proofs.Text.Utf8
import Mathlib.Tactic.IntervalCases

/-!
# Reading numbers

The reader accepts exactly the grammar of numbers, and gives the number that a text stands for.

* `toInt_hexWord`: hexadecimal digits wrap around 64 bits.
* `Number.ofChars?_append`: what is read after a sign, in one equation.
* `Number.ofChars?_eq_some_iff`: a text without blanks reads as what it denotes.
* `Number.ofBytes?_grammar`: the same for bytes, which may hold blanks around the number.
-/

namespace Interop

variable {sign body digits text : List Char} {negative : Bool}

/-! ## Characters of numbers -/

theorem mem_digits_of_isDigit {c : Char} (h : isDigit c) :
    c ∈ ['0', '1', '2', '3', '4', '5', '6', '7', '8', '9'] := by
  rw [isDigit, Bool.and_eq_true, decide_eq_true_eq, decide_eq_true_eq, Char.le_def,
    Char.le_def, UInt32.le_iff_toNat_le, UInt32.le_iff_toNat_le] at h
  have hlow : 48 ≤ c.toNat := h.1
  have hhigh : c.toNat ≤ 57 := h.2
  rw [← Char.ofNat_toNat c]
  interval_cases c.toNat <;> decide

def decimalChars : List Char :=
  ['0', '1', '2', '3', '4', '5', '6', '7', '8', '9', '.', 'e', 'E', '+', '-']

theorem mem_of_isDecimalChar {c : Char} (h : isDecimalChar c) : c ∈ decimalChars := by
  simp only [isDecimalChar, Bool.or_eq_true, beq_iff_eq] at h
  rcases h with ((((h | rfl) | rfl) | rfl) | rfl) | rfl
  · exact List.mem_append_left ['.', 'e', 'E', '+', '-'] (mem_digits_of_isDigit h)
  all_goals decide

/-- A character of decimals is no letter of the words for infinity and NaN. -/
theorem toLower_of_isDecimalChar {c : Char} (h : isDecimalChar c) :
    c.toLower ≠ 'i' ∧ c.toLower ≠ 'n' := by
  have all : decimalChars.all fun c => c.toLower ≠ 'i' ∧ c.toLower ≠ 'n' := by decide
  exact of_decide_eq_true (List.all_eq_true.mp all c (mem_of_isDecimalChar h))

theorem isDecimalChar_of_isDigit {c : Char} (h : isDigit c) : isDecimalChar c := by
  simp [isDecimalChar, h]

theorem IsSign.isDecimalChar (h : IsSign sign negative) : ∀ c ∈ sign, isDecimalChar c := by
  refine List.all_eq_true.mp ?_
  cases h <;> decide

theorem IsExponent.isDecimalChar {power : List Char} {e : Int} (h : IsExponent power e) :
    ∀ c ∈ power, isDecimalChar c := by
  cases h with
  | absent => nofun
  | present hm hs hd =>
    simp only [List.cons_append, List.forall_mem_cons, List.forall_mem_append]
    refine ⟨?_, hs.isDecimalChar, fun c hc => isDecimalChar_of_isDigit (hd.2 c hc)⟩
    rcases hm with rfl | rfl <;> decide

theorem IsDecimal.isDecimalChar {d : Decimal} (h : IsDecimal body d) :
    ∀ c ∈ body, isDecimalChar c := by
  cases h with
  | whole hd hp =>
    simp only [List.forall_mem_append]
    exact ⟨fun c hc => isDecimalChar_of_isDigit (hd.2 c hc), hp.isDecimalChar⟩
  | point hd hp =>
    simp only [List.forall_mem_append, List.forall_mem_cons]
    refine ⟨⟨fun c hc => ?_, by decide, fun c hc => ?_⟩, hp.isDecimalChar⟩
    · exact isDecimalChar_of_isDigit (hd.2 c (List.mem_append_left _ hc))
    · exact isDecimalChar_of_isDigit (hd.2 c (List.mem_append_right _ hc))

theorem IsDecimal.exists_isDigit {d : Decimal} (h : IsDecimal body d) :
    ∃ c ∈ body, isDigit c := by
  cases h with
  | whole hd hp =>
    obtain ⟨c, hc⟩ := List.exists_mem_of_ne_nil _ hd.1
    exact ⟨c, List.mem_append_left _ hc, hd.2 c hc⟩
  | point hd hp =>
    obtain ⟨c, hc⟩ := List.exists_mem_of_ne_nil _ hd.1
    refine ⟨c, ?_, hd.2 c hc⟩
    simp only [List.mem_append, List.mem_cons] at hc ⊢
    tauto

/-- A decimal begins with a digit or a point. -/
theorem IsDecimal.head {d : Decimal} (h : IsDecimal body d) :
    ∃ c cs, body = c :: cs ∧ (isDigit c ∨ c = '.') := by
  cases h with
  | @whole digits power e hd hp =>
    obtain ⟨c, digits, rfl⟩ := List.exists_cons_of_ne_nil hd.1
    exact ⟨c, digits ++ power, rfl, .inl (hd.2 c List.mem_cons_self)⟩
  | @point whole fraction power e hd hp =>
    cases whole with
    | nil => exact ⟨'.', fraction ++ power, rfl, .inr rfl⟩
    | cons c whole =>
      exact ⟨c, whole ++ '.' :: fraction ++ power, rfl, .inl (hd.2 c List.mem_cons_self)⟩

theorem IsDecimal.unsigned {d : Decimal} (h : IsDecimal body d) : Unsigned body := by
  obtain ⟨c, cs, rfl, hc⟩ := h.head
  intro c' hc'
  cases hc'
  rcases hc with hc | rfl
  · constructor <;> rintro rfl <;> cases hc
  · decide

/-! ## Hexadecimal words -/

theorem hexBody?_eq_some_iff : Number.hexBody? body = some digits ↔
    ∃ x, (x = 'x' ∨ x = 'X') ∧ body = '0' :: x :: digits := by
  constructor
  · intro h
    unfold Number.hexBody? at h
    split at h
    · rename_i x digits'
      split at h
      · rename_i hx
        cases h
        exact ⟨x, by simpa using hx, rfl⟩
      · cases h
    · cases h
  · rintro ⟨x, hx, rfl⟩
    rw [Number.hexBody?, if_pos (by simpa using hx)]

/-- No decimal is a hexadecimal body. -/
theorem IsDecimal.hexBody?_eq_none {d : Decimal} (h : IsDecimal body d) :
    Number.hexBody? body = none := by
  cases hb : Number.hexBody? body with
  | none => rfl
  | some digits =>
    obtain ⟨x, hx, rfl⟩ := hexBody?_eq_some_iff.mp hb
    have hc := h.isDecimalChar x (by simp)
    rcases hx with rfl | rfl <;> cases hc

theorem toNat_hexWord (digits : List Char) :
    (hexWord digits).toNat = hexDigitsValue digits % 2 ^ 64 := by
  have step : ∀ (w : UInt64) (n : Nat), w.toNat = n % 2 ^ 64 →
      (digits.foldl (fun n c => n * 16 + (hexDigitValue c).toUInt64) w).toNat =
        digits.foldl (fun n c => 16 * n + hexDigitValue c) n % 2 ^ 64 := by
    induction digits with
    | nil => exact fun _ _ h => h
    | cons c digits ih =>
      intro w n h
      refine ih _ _ ?_
      rw [UInt64.toNat_add, UInt64.toNat_mul, Nat.toUInt64, UInt64.toNat_ofNat', h]
      show (n % 2 ^ 64 * 16 % 2 ^ 64 + hexDigitValue c % 2 ^ 64) % 2 ^ 64 =
        (16 * n + hexDigitValue c) % 2 ^ 64
      omega
  exact step 0 0 rfl

theorem toInt_toInt64 (w : UInt64) : w.toInt64.toInt = (w.toNat : Int).bmod (2 ^ 64) := by
  show w.toBitVec.toInt = _
  rw [BitVec.toInt_eq_toNat_bmod]
  rfl

private theorem bmod_modEq (x : Int) : x.bmod (2 ^ 64) ≡ x [ZMOD 2 ^ 64] := Int.bmod_emod

/-- Hexadecimal digits with a sign, as an integer of 64 bits. -/
def wordValue (negative : Bool) (digits : List Char) : Int64 :=
  if negative then -(hexWord digits).toInt64 else (hexWord digits).toInt64

theorem wordValue_modEq (negative : Bool) (digits : List Char) :
    (wordValue negative digits).toInt ≡ signed negative (hexDigitsValue digits) [ZMOD 2 ^ 64] := by
  have hword : (hexWord digits).toInt64.toInt ≡ hexDigitsValue digits [ZMOD 2 ^ 64] := by
    rw [toInt_toInt64, toNat_hexWord]
    exact (bmod_modEq _).trans (by rw [Int.natCast_mod]; exact Int.mod_modEq _ _)
  cases negative with
  | false => exact hword
  | true =>
    rw [wordValue, if_pos rfl, Int64.toInt_neg]
    exact (bmod_modEq _).trans hword.neg

theorem Int64.eq_of_modEq {i j : Int64} (h : i.toInt ≡ j.toInt [ZMOD 2 ^ 64]) : i = j := by
  have hi := i.le_toInt
  have hi' := i.toInt_lt
  have hj := j.le_toInt
  have hj' := j.toInt_lt
  rw [← Int64.toInt_inj]
  unfold Int.ModEq at h
  omega

/-! ## Integers and doubles -/

theorem fitsInt64_iff {i : Int} : Number.fitsInt64 i ↔ -2 ^ 63 ≤ i ∧ i < 2 ^ 63 := by
  rw [Number.fitsInt64, Bool.and_eq_true, decide_eq_true_eq, decide_eq_true_eq]
  show -2 ^ 63 ≤ i ∧ i ≤ 2 ^ 63 - 1 ↔ _
  omega

theorem toInt_ofInt_of_fits {i : Int} (h : Number.fitsInt64 i) : (Int64.ofInt i).toInt = i :=
  Int64.toInt_ofInt_of_le (fitsInt64_iff.mp h).1 (fitsInt64_iff.mp h).2

theorem signedDigits?_append (hs : IsSign sign negative) (hb : Unsigned body) :
    signedDigits? (sign ++ body) =
      if IsRun isDigit body then some (signed negative (digitsValue body)) else none := by
  simp only [signedDigits?, splitSign_append hs hb]
  by_cases hr : IsRun isDigit body
  · rw [if_pos hr, isRun_iff.mp hr]
    rfl
  · rw [if_neg hr, if_pos]
    rw [isRun_iff, Bool.not_eq_false] at hr
    exact hr

theorem int64?_append (hs : IsSign sign negative) (hb : Unsigned body) :
    Number.int64? (sign ++ body) =
      if IsWhole negative body then some (.ofInt (signed negative (digitsValue body)))
      else none := by
  rw [Number.int64?, signedDigits?_append hs hb]
  by_cases hr : IsRun isDigit body
  · simp only [IsWhole, hr, true_and, if_true, Option.bind_some, fitsInt64_iff]
  · simp only [IsWhole, hr, false_and, if_false, Option.bind_none]

/-- Characters of decimals make none of the words for infinity and NaN. -/
theorem word_ne (hc : ∀ c ∈ body, isDecimalChar c) {c : Char} {cs : List Char}
    (hw : c = 'i' ∨ c = 'n') :
    String.ofList (body.map Char.toLower) ≠ String.ofList (c :: cs) := by
  intro h
  have hmem : c ∈ body.map Char.toLower := by
    rw [String.ofList_inj.mp h]
    exact List.mem_cons_self
  obtain ⟨x, hx, rfl⟩ := List.mem_map.mp hmem
  exact hw.elim (toLower_of_isDecimalChar (hc x hx)).1 (toLower_of_isDecimalChar (hc x hx)).2

theorem Binary.ofChars?_of_decimalChars {f : Format} (hb : Unsigned body)
    (hc : ∀ c ∈ body, isDecimalChar c) :
    Binary.ofChars? f body = (Decimal.ofChars? body).map (Decimal.toBinary f) := by
  have hinf : String.ofList (body.map Char.toLower) ∉ infinityWords := by
    simp only [infinityWords, List.mem_cons, List.not_mem_nil, or_false, not_or]
    exact ⟨word_ne hc (.inl rfl), word_ne hc (.inl rfl)⟩
  have hnan : String.ofList (body.map Char.toLower) ∉ nanWords := by
    simp only [nanWords, List.mem_cons, List.not_mem_nil, or_false]
    exact word_ne hc (.inr rfl)
  simp only [Binary.ofChars?, splitSign_of_unsigned hb, List.contains_iff_mem, hinf, hnan, if_false]
  rfl

namespace Number

/-- The test of the characters lets every decimal through. -/
theorem ofChars?_filtered (hb : Unsigned body) :
    (if !body.all isDecimalChar || !body.any isDigit then none
      else (Binary.ofChars? .double body).map fun x => float (x.withSign negative)) =
      (Decimal.ofChars? body).map fun d => float ((d.toBinary .double).withSign negative) := by
  cases hd : Decimal.ofChars? body with
  | none =>
    split
    · rfl
    · rename_i hc
      simp only [Bool.or_eq_true, Bool.not_eq_true', not_or, Bool.not_eq_false] at hc
      rw [Binary.ofChars?_of_decimalChars hb (List.all_eq_true.mp hc.1), hd]
      rfl
  | some d =>
    have hdec := Decimal.ofChars?_eq_some_iff.mp hd
    have hall : body.all isDecimalChar := List.all_eq_true.mpr hdec.isDecimalChar
    have hany : body.any isDigit := List.any_eq_true.mpr hdec.exists_isDigit
    rw [hall, hany, Binary.ofChars?_of_decimalChars hb hdec.isDecimalChar, hd]
    rfl

/-- What is read after a sign. -/
theorem ofChars?_append (hs : IsSign sign negative) (hb : Unsigned body) (hne : body ≠ []) :
    ofChars? (sign ++ body) =
      match hexBody? body with
      | some digits =>
        if IsRun isHexDigit digits then some (.integer (wordValue negative digits)) else none
      | none =>
        if IsWhole negative body then
          some (.integer (.ofInt (signed negative (digitsValue body))))
        else
          (Decimal.ofChars? body).map fun d => .float ((d.toBinary .double).withSign negative) := by
  have hguard : (body.isEmpty || body.head? == some '+' || body.head? == some '-') = false := by
    obtain ⟨c, cs, rfl⟩ := List.exists_cons_of_ne_nil hne
    simpa using hb c rfl
  simp only [ofChars?, splitSign_append hs hb, hguard, Bool.false_eq_true, if_false]
  cases hexBody? body with
  | some digits =>
    by_cases hr : IsRun isHexDigit digits
    · simp only [if_pos hr, isRun_iff.mp hr, Bool.false_eq_true, if_false]
      cases negative <;> rfl
    · have hne : (digits.isEmpty || !digits.all isHexDigit) = true := by
        rwa [isRun_iff, Bool.not_eq_false] at hr
      simp only [if_neg hr, hne, if_true]
  | none =>
    simp only [int64?_append hs hb, ofChars?_filtered hb]
    by_cases hw : IsWhole negative body
    · simp only [hw, List.all_eq_true.mpr hw.1.2, if_true]
    · simp only [hw, if_false, ite_self]

/-- A text that is read begins with at most one sign. -/
theorem split_of_ofChars? {n : Number} (h : ofChars? text = some n) :
    ∃ sign negative body, IsSign sign negative ∧ Unsigned body ∧ body ≠ [] ∧
      text = sign ++ body := by
  cases hsplit : splitSign text with | mk negative body =>
  obtain ⟨sign, hs, rfl⟩ := of_splitSign hsplit
  simp only [ofChars?, hsplit] at h
  split at h
  · cases h
  · rename_i hguard
    simp only [Bool.or_eq_true, beq_iff_eq, List.isEmpty_iff, not_or] at hguard
    refine ⟨sign, negative, body, hs, fun c hc => ⟨?_, ?_⟩, hguard.1.1, rfl⟩
    · rintro rfl
      exact hguard.1.2 hc
    · rintro rfl
      exact hguard.2 hc

theorem denotes_of_ofChars? {n : Number} (h : ofChars? text = some n) : Denotes text n := by
  obtain ⟨sign, negative, body, hs, hb, hne, rfl⟩ := split_of_ofChars? h
  rw [ofChars?_append hs hb hne] at h
  split at h
  · rename_i digits hhex
    obtain ⟨x, hx, rfl⟩ := hexBody?_eq_some_iff.mp hhex
    split at h
    · rename_i hr
      cases h
      exact .hex hs hx hr (wordValue_modEq negative digits)
    · cases h
  · split at h
    · rename_i hw
      cases h
      exact .whole hs hw (Int64.toInt_ofInt_of_le hw.2.1 hw.2.2)
    · rename_i hw
      obtain ⟨d, hd, rfl⟩ := Option.map_eq_some_iff.mp h
      exact .real hs (Decimal.ofChars?_eq_some_iff.mp hd) hw

theorem ofChars?_of_denotes {n : Number} (h : Denotes text n) : ofChars? text = some n := by
  cases h with
  | @hex sign digits negative x i hs hx hd hi =>
    have hb : Unsigned ('0' :: x :: digits) := by
      rintro c hc
      cases hc
      decide
    rw [ofChars?_append hs hb (by simp), hexBody?_eq_some_iff.mpr ⟨x, hx, rfl⟩]
    simp only [if_pos hd]
    rw [Int64.eq_of_modEq ((wordValue_modEq negative digits).trans hi.symm)]
  | @whole sign body negative i hs hw hi =>
    have hdec := IsDecimal.of_digits hw.1
    rw [ofChars?_append hs hdec.unsigned hw.1.1, hdec.hexBody?_eq_none]
    simp only [if_pos hw, ← hi, Int64.ofInt_toInt]
  | @real sign body negative d hs hd hw =>
    have hne : body ≠ [] := by
      obtain ⟨c, cs, rfl, -⟩ := hd.head
      simp
    rw [ofChars?_append hs hd.unsigned hne, hd.hexBody?_eq_none]
    simp only [if_neg hw, Decimal.ofChars?_eq_some_iff.mpr hd, Option.map_some]

/-- A text without blanks reads as the number that it denotes. -/
theorem ofChars?_eq_some_iff {n : Number} : ofChars? text = some n ↔ Denotes text n :=
  ⟨denotes_of_ofChars?, ofChars?_of_denotes⟩

/-! ## The grammar -/

theorem Denotes.isNumeral {n : Number} (h : Denotes text n) : IsNumeral text := by
  cases h with
  | hex hs hx hd hi => exact .hex hs hx hd
  | whole hs hw hi => exact .decimal hs (.of_digits hw.1)
  | real hs hd hw => exact .decimal hs hd

end Number

theorem Char.le_iff_toNat {a c : Char} : a ≤ c ↔ a.toNat ≤ c.toNat := by
  rw [Char.le_def, UInt32.le_iff_toNat_le]
  rfl

/-- Blanks are control characters and spaces, or beyond ASCII. -/
theorem toNat_of_isBlank {c : Char} (h : isBlank c) : c.toNat ≤ 32 ∨ 133 ≤ c.toNat := by
  simp only [isBlank, Bool.or_eq_true, Bool.and_eq_true, decide_eq_true_eq, beq_iff_eq,
    Char.le_iff_toNat, Char.reduceToNat, ← Char.toNat_inj] at h
  omega

theorem not_isBlank_of_isHexDigit {c : Char} (h : isHexDigit c) : ¬ isBlank c := by
  intro hb
  have hblank := toNat_of_isBlank hb
  simp only [isHexDigit, isDigit, Bool.or_eq_true, Bool.and_eq_true, decide_eq_true_eq,
    Char.le_iff_toNat, Char.reduceToNat] at h
  omega

theorem not_isBlank_of_isDecimalChar {c : Char} (h : isDecimalChar c) : ¬ isBlank c := by
  have all : decimalChars.all fun c => ¬ isBlank c := by decide
  exact of_decide_eq_true (List.all_eq_true.mp all c (mem_of_isDecimalChar h))

theorem IsNumeral.not_isBlank (h : IsNumeral text) : ∀ c ∈ text, ¬ isBlank c := by
  cases h with
  | hex hs hx hd =>
    simp only [List.forall_mem_append, List.forall_mem_cons]
    refine ⟨fun c hc => not_isBlank_of_isDecimalChar (hs.isDecimalChar c hc), by decide, ?_,
      fun c hc => not_isBlank_of_isHexDigit (hd.2 c hc)⟩
    rcases hx with rfl | rfl <;> decide
  | decimal hs hd =>
    simp only [List.forall_mem_append]
    exact ⟨fun c hc => not_isBlank_of_isDecimalChar (hs.isDecimalChar c hc),
      fun c hc => not_isBlank_of_isDecimalChar (hd.isDecimalChar c hc)⟩

theorem IsNumeral.ne_nil (h : IsNumeral text) : text ≠ [] := by
  cases h with
  | hex hs hx hd => simp
  | decimal hs hd =>
    obtain ⟨c, cs, rfl, -⟩ := hd.head
    simp

namespace Number

/-- Bytes read as a number iff they encode, with blanks around it, a text that denotes it. -/
theorem ofBytes?_eq_some_iff {bytes : List UInt8} {n : Number} : ofBytes? bytes = some n ↔
    ∃ before numeral after, IsBlanks before ∧ IsBlanks after ∧
      bytes = (before ++ numeral ++ after).flatMap String.utf8EncodeChar ∧ Denotes numeral n := by
  rw [ofBytes?, Option.bind_eq_some_iff]
  constructor
  · rintro ⟨text, hdecode, hn⟩
    obtain ⟨before, after, hb, ha, htext⟩ := exists_trimBlanks text
    refine ⟨before, trimBlanks text, after, hb, ha, ?_, ofChars?_eq_some_iff.mp hn⟩
    rw [← htext]
    exact Utf8.decode?_eq_some_iff.mp hdecode
  · rintro ⟨before, numeral, after, hb, ha, hbytes, hn⟩
    refine ⟨_, Utf8.decode?_eq_some_iff.mpr hbytes, ?_⟩
    rw [trimBlanks_surround hb ha hn.isNumeral.not_isBlank hn.isNumeral.ne_nil]
    exact ofChars?_eq_some_iff.mpr hn

end Number

end Interop
