import Interop.Call.Format
import Interop.Host.Basic
import Interop.Proofs.Toml.Record

/-!
# Settings that are written and read

Rules of choice that are written as settings read back as they are, if they are valid. Rules that
are read are valid, and a host that adopts rules makes them valid if they are not.

* `CallRules.toText?_isSome_iff`, `CallRules.ofText_toText`: in a format that conforms, settings are
  written unless their limit is too large for TOML, and read as they are before they are checked.
* `SettingsFormat.conforms_reference`: the format of this library conforms.
* `Host.adopt_settings`: what is written, what is read, and what is adopted.
-/

namespace Interop

namespace CallRules

variable {f : SettingsFormat} {rules : CallRules} {text : String}

/-! ## Valid rules -/

theorem validate_eq_ok_iff : rules.validate = .ok () ↔ rules.maxArity ≤ Score.arityLimit := by
  rw [validate, isValid]
  split <;> simp_all

theorem validate_of_not_ok (h : rules.validate ≠ .ok ()) :
    rules.validate = .error (.arityTooLarge rules.maxArity Score.arityLimit) := by
  unfold validate at h ⊢
  split
  · rename_i hvalid
    rw [if_pos hvalid] at h
    exact absurd rfl h
  · rfl

theorem validate_clamped : rules.clamped.validate = .ok () :=
  validate_eq_ok_iff.mpr (Nat.min_le_right ..)

theorem clamped_of_ok (h : rules.validate = .ok ()) : rules.clamped = rules := by
  rw [clamped, Nat.min_eq_left (validate_eq_ok_iff.mp h)]

/-- Rules are read from a text only if they pass their check. -/
theorem validate_of_ofText (h : ofText f text = .ok rules) : rules.validate = .ok () := by
  unfold ofText at h
  split at h
  · rename_i read _
    cases hread : read.validate with
    | error e =>
      rw [hread] at h
      cases h
    | ok =>
      rw [hread] at h
      cases h
      exact hread
  · cases h

/-! ## Written settings -/

theorem isRecord_fields (rules : CallRules) : Toml.IsRecord rules.fields where
  distinct := (by decide : ["tie-break", "max-arity"].Nodup)
  bare := by
    rw [fields, List.forall_mem_cons, List.forall_mem_singleton]
    exact (by decide : Toml.isBareKey "tie-break" ∧ Toml.isBareKey "max-arity")
  simple := by
    rw [fields, List.forall_mem_cons, List.forall_mem_singleton]
    exact ⟨.inl ⟨_, by cases rules.tieBreak <;> decide, rfl⟩, .inr ⟨_, rfl⟩⟩

theorem fitsInt64_fields : Toml.FitsInt64 rules.fields ↔ rules.maxArity < 2 ^ 63 := by
  rw [fields, Toml.fitsInt64_cons, Toml.fitsInt64_cons, ← Toml.fitsInt64_count]
  simp [Toml.FitsInt64]

/-- **Range.** Settings can be written as long as their limit is an integer of TOML. -/
theorem toText?_isSome_iff (hf : f.Conforms) :
    (rules.toText? f).isSome ↔ rules.maxArity < 2 ^ 63 :=
  (hf.writable _ rules.isRecord_fields).trans fitsInt64_fields

/-- **Round trip.** Written settings are read as the rules that they were written from, if these
pass their check. -/
theorem ofText_toText (hf : f.Conforms) (h : rules.toText? f = some text) :
    ofText f text = rules.validate.map fun _ => rules := by
  have hsmall : rules.maxArity < 2 ^ 63 := (toText?_isSome_iff hf).mp (h ▸ rfl)
  have hparse : f.parse? text = some fun key => rules.fields.lookup key :=
    hf.parses _ _ rules.isRecord_fields (fitsInt64_fields.mpr hsmall)
      (hf.writes _ _ rules.isRecord_fields h)
  have hdecode : f.decode? (fun key => rules.fields.lookup key) = some rules :=
    hf.decodes _ _ _ (Toml.fitsInt64_count.mpr hsmall) (.value _ rfl) (.value _ rfl)
  rw [ofText, hparse, Option.bind_some, hdecode]

end CallRules

/-! ## The format of this library -/

theorem settingOr_of_sets {α : Type} {content : Toml.Content} {key : String} {node : α → Toml.Node}
    {read? : Toml.Node → Option α} {fallback a : α} (h : content.Sets key node fallback a)
    (hread : read? (node a) = some a) : settingOr content key read? fallback = some a := by
  rw [settingOr]
  cases h with
  | value _ h => rw [h]; exact hread
  | missing h => rw [h]

/-- **Reference.** The reader and the writer of this library are as a host relies on. -/
theorem SettingsFormat.conforms_reference : SettingsFormat.reference.Conforms where
  parses fields text hr hfits hdoc := by
    show (Toml.Table.ofText? text).map _ = _
    rw [Toml.Table.ofText?_record hr hfits hdoc]
    rfl
  writes _ _ _ h := Toml.isDocument_of_recordText? h
  writable _ hr := Toml.isSome_recordText?_iff hr
  decodes content tieBreak maxArity _ htieBreak hmaxArity := by
    show CallRules.ofContent? content = _
    have hkey : TieBreak.ofNode? (.text tieBreak.key) = some tieBreak := by
      cases tieBreak <;> decide
    have hcount : natOfNode? (.integer maxArity) = some maxArity := by
      rw [natOfNode?, if_pos (Int.natCast_nonneg _), Int.toNat_natCast]
    rw [CallRules.ofContent?, settingOr_of_sets htieBreak hkey, settingOr_of_sets hmaxArity hcount]
    rfl

namespace Host

/-- **Settings.** In a format that conforms, rules can be written as long as their arity limit is an
integer of TOML. Written rules are read as they are if they are valid, and refused for their arity
limit otherwise. Whatever a text is, rules that are read from it are valid, and a host adopts them
unchanged. Of rules that are not valid it adopts the tie-break and the greatest valid limit. -/
theorem adopt_settings {f : SettingsFormat} (hf : f.Conforms) :
    (∀ rules : CallRules, (rules.toText? f).isSome ↔ rules.maxArity < 2 ^ 63) ∧
    (∀ (rules : CallRules) (text : String), rules.toText? f = some text →
      (rules.validate = .ok () → CallRules.ofText f text = .ok rules) ∧
      (rules.validate ≠ .ok () →
        CallRules.ofText f text = .error (.arityTooLarge rules.maxArity Score.arityLimit))) ∧
    (∀ (text : String) (rules : CallRules), CallRules.ofText f text = .ok rules →
      rules.validate = .ok () ∧ ∀ h : Host, h.adopt rules = (rules, h)) ∧
    (∀ (h : Host) (rules : CallRules),
      (h.adopt rules).1.validate = .ok () ∧
      (h.adopt rules).1.tieBreak = rules.tieBreak ∧
      (h.adopt rules).1.maxArity = min rules.maxArity Score.arityLimit) := by
  refine ⟨fun _ => CallRules.toText?_isSome_iff hf, fun rules text htext => ⟨?_, ?_⟩,
    fun text rules hread => ?_, fun h rules => ⟨CallRules.validate_clamped, rfl, rfl⟩⟩
  · intro hvalid
    rw [CallRules.ofText_toText hf htext, hvalid]
    rfl
  · intro hinvalid
    rw [CallRules.ofText_toText hf htext, CallRules.validate_of_not_ok hinvalid]
    rfl
  · have hvalid := CallRules.validate_of_ofText hread
    refine ⟨hvalid, fun h => ?_⟩
    have hlimit : rules.isValid := decide_eq_true (CallRules.validate_eq_ok_iff.mp hvalid)
    rw [adopt, CallRules.clamped_of_ok hvalid, if_pos hlimit]

/-- A limit that is valid, one that is written and refused, and one that cannot be written. -/
theorem adopt_settings_limits :
    let f := SettingsFormat.reference
    let rules : CallRules := ⟨.declarationOrder, 8⟩
    let wide : CallRules := ⟨.reject, 253⟩
    let text := "tie-break = \"declaration-order\"\nmax-arity = 8\n"
    let large := "tie-break = \"reject\"\nmax-arity = 253\n"
    f.Conforms ∧
      rules.toText? f = some text ∧ CallRules.ofText f text = .ok rules ∧
      initial.adopt rules = (rules, initial) ∧
      wide.toText? f = some large ∧
      CallRules.ofText f large = .error (.arityTooLarge 253 252) ∧
      (initial.adopt wide).1 = ⟨.reject, 252⟩ ∧
      ¬ ((CallRules.mk .reject (2 ^ 63)).toText? f).isSome := by
  intro f rules wide text large
  have hf : f.Conforms := SettingsFormat.conforms_reference
  obtain ⟨hwritable, hwritten, hread, hadopted⟩ := adopt_settings hf
  have htext : rules.toText? f = some text := by decide
  have hlarge : wide.toText? f = some large := by decide
  have hrules := (hwritten rules text htext).1 rfl
  obtain ⟨-, htieBreak, hmaxArity⟩ := hadopted initial wide
  refine ⟨hf, htext, hrules, (hread text rules hrules).2 initial, hlarge,
    (hwritten wide large hlarge).2 (by decide), ?_, ?_⟩
  · exact congrArg₂ CallRules.mk htieBreak hmaxArity
  · rw [hwritable]
    decide

end Host

end Interop
