import Interop.Proofs.Delivery.Convert
import Interop.Proofs.Host.Run
import Interop.Proofs.Text.Lossy

/-!
# Deliveries of text

Texts of a script are bytes. The native text type takes them as UTF-8, and byte arrays take them as
they are. The scores say beforehand which of the two loses nothing.

* `Strategy.score_text_of_bytes`, `Strategy.score_bytes_of_bytes`: the scores of a text.
* `Host.Reachable.text_lossless`: what both types make of a text, and at what cost.
-/

namespace Interop

namespace Strategy

variable {g : TypeGraph} {v : ScriptValue} {bytes : List UInt8}

/-- The native text type is exact for UTF-8. -/
theorem score_text_of_bytes (hk : v.kind = .text) (hb : v.bytes? = some bytes) :
    (text .text).score g v = if Utf8.isValid bytes then .exact else .lossy := by
  rw [score, textScore.eq_def, hk, hasValidText, hb]
  rfl

/-- Byte arrays are exact for what is not UTF-8. -/
theorem score_bytes_of_bytes (hk : v.kind = .text) (hb : v.bytes? = some bytes) :
    (text .bytes).score g v = if Utf8.isValid bytes then .ofCost 1 else .exact := by
  rw [score, textScore.eq_def, hk, hasValidText, hb]
  rfl

theorem convert_bytes_of_bytes (hk : v.kind = .text) (hb : v.bytes? = some bytes)
    (hn : v.isNil = false) : (text .bytes).convert g v = .ok (.bytes bytes) := by
  have hc : ((text .bytes).score g v).isCoercible = true := by
    rw [score_bytes_of_bytes hk hb]
    split <;> rfl
  rw [(convert_bytes hc).2, hn, hb]
  rfl

end Strategy

theorem TypeGraph.strategy_text (g : TypeGraph) :
    g.strategy Builtin.text = .text .text :=
  strategy_of_known (by decide)

theorem TypeGraph.strategy_bytes (g : TypeGraph) :
    g.strategy Builtin.bytes = .text .bytes :=
  strategy_of_known (by decide)

namespace Host

/-- **Texts.** The native text type takes any bytes, as the characters that they are read as:
exactly if they are UTF-8, and then they come back from the text, and else at the cost of a loss. A
byte array takes the bytes as they are, and is exact for those that are not UTF-8. -/
theorem Reachable.text_lossless {h : Host} (hr : h.Reachable) (bytes : List UInt8) (g : TypeGraph)
    (a : Nat) :
    let v := (Value.text bytes).script g a
    let valid := bytes.toByteArray.IsValidUTF8
    ((h.score Builtin.text v).1 = .exact ↔ valid) ∧
    ((h.score Builtin.text v).1 = .lossy ↔ ¬ valid) ∧
    (∃ s, (h.convert Builtin.text v).1 = .ok (.text s) ∧ (s.toUTF8.data.toList = bytes ↔ valid) ∧
      ∀ text, Utf8.ReadsAs bytes text ↔ text = s.toList) ∧
    ((h.score Builtin.bytes v).1 = .ofCost 1 ↔ valid) ∧
    ((h.score Builtin.bytes v).1 = .exact ↔ ¬ valid) ∧
    (h.convert Builtin.bytes v).1 = .ok (.bytes bytes) := by
  intro v valid
  have htext : (h.score Builtin.text v).1 = if Utf8.isValid bytes then .exact else .lossy := by
    rw [hr.score_fst, TypeGraph.score, TypeGraph.strategy_text]
    exact Strategy.score_text_of_bytes rfl rfl
  have hbytes : (h.score Builtin.bytes v).1 =
      if Utf8.isValid bytes then .ofCost 1 else .exact := by
    rw [hr.score_fst, TypeGraph.score, TypeGraph.strategy_bytes]
    exact Strategy.score_bytes_of_bytes rfl rfl
  have hconvert : (h.convert Builtin.text v).1 = .ok (.text (Utf8.decodeLossy bytes)) := by
    rw [hr.convert_fst, TypeGraph.convert, TypeGraph.strategy_text, Strategy.convert_text]
    rfl
  have hkept : (h.convert Builtin.bytes v).1 = .ok (.bytes bytes) := by
    rw [hr.convert_fst, TypeGraph.convert, TypeGraph.strategy_bytes]
    exact Strategy.convert_bytes_of_bytes rfl rfl rfl
  have hvalid : valid ↔ Utf8.isValid bytes = true := Utf8.isValid_iff.symm
  rw [htext, hbytes]
  refine ⟨?_, ?_, ⟨_, hconvert, Utf8.toUTF8_decodeLossy_iff, fun _ => Utf8.readsAs_iff⟩, ?_, ?_,
    hkept⟩
  · rw [hvalid, Ne.ite_eq_left_iff (by decide)]
  · rw [hvalid, Ne.ite_eq_right_iff (by decide)]
  · rw [hvalid, Ne.ite_eq_left_iff (by decide)]
  · rw [hvalid, Ne.ite_eq_right_iff (by decide)]

/-- A letter, two bytes of a character of three, and a letter. -/
def cutShort : List UInt8 := [0x61, 0xE2, 0x82, 0x62]

theorem text_lossless_cutShort :
    let v := (Value.text cutShort).script .initial 1
    initial.Reachable ∧ ¬ cutShort.toByteArray.IsValidUTF8 ∧
      Utf8.ReadsAs cutShort ['a', '\uFFFD', 'b'] ∧
      (initial.convert Builtin.text v).1 = .ok (.text "a\uFFFDb") ∧
      (initial.score Builtin.text v).1 = .lossy ∧ (initial.score Builtin.bytes v).1 = .exact ∧
      (initial.convert Builtin.bytes v).1 = .ok (.bytes cutShort) := by
  intro v
  obtain ⟨-, hlossy, ⟨s, hs, -, hreads⟩, -, hexact, hkept⟩ :=
    Reachable.initial.text_lossless cutShort .initial 1
  have hvalid : ¬ cutShort.toByteArray.IsValidUTF8 := by
    rw [← Utf8.isValid_iff]
    decide +kernel
  have htext : Utf8.ReadsAs cutShort ['a', '\uFFFD', 'b'] :=
    Utf8.readsAs_iff.mpr (by decide +kernel)
  have heq : s = "a\uFFFDb" := String.toList_inj.mp ((hreads _).mp htext).symm
  exact ⟨.initial, hvalid, htext, heq ▸ hs, hlossy.mpr hvalid, hexact.mpr hvalid, hkept⟩

end Host

end Interop
