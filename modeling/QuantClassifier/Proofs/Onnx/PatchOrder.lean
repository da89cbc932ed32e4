import QuantClassifier.Proofs.Onnx.BatchPatch
import QuantClassifier.Proofs.Wire.Composing

/-!
# The order of patches

Which of two updates on paths that leave each other comes first cannot be told from the result. The
dimensions of the two slots are on such paths, so that a patch of the batch dimension may begin with
either slot (`pinSlot_turn`).
-/

namespace QuantClassifier.Onnx

open Wire

section Turn

variable {batch : Int} {slot other : Slot} {bytes out : Bytes}

/-- What two patches give in one order they give in the other order, too. -/
theorem pinSlot_turn (hne : slot.field ≠ other.field) (hlen : bytes.length < 2 ^ 63)
    (h : (pinSlot batch slot bytes >>= pinSlot batch other) = .ok out) :
    (pinSlot batch other bytes >>= pinSlot batch slot) = .ok out := by
  simp only [bind_eq_ok_iff, pinSlot_eq_ok_iff] at h ⊢
  obtain ⟨left, hleft, hout⟩ := h
  have hleftLen := length_le_of_pin hleft (by omega)
  obtain ⟨old, new, -, -, hrep⟩ := update_eq_ok_some_iff.1 hleft
  obtain ⟨old', new', hold', hnew', hrep'⟩ := update_eq_ok_some_iff.1 hout
  rw [select?_of_replace?_slot hne hrep (by omega)] at hold'
  obtain ⟨right, hright⟩ := exists_replace? hold' new'
  have hright := update_eq_ok_some_iff.2 ⟨old', new', hold', hnew', hright⟩
  have hrightLen := length_le_of_pin hright (by omega)
  rw [Slot.dimensionPath_eq] at hleft hout hright ⊢
  obtain ⟨out', hout', hturned⟩ := update_diamond hne hleft (by omega) hright (by omega)
  cases hout.symm.trans hout'
  exact ⟨right, hright, hturned⟩

end Turn

/-- Two updates on paths that leave each other, whatever their functions write, can both be made,
and in either order they give the same message. So a patch that begins with the input's dimension
and one that begins with the output's succeed on the same models, with the same bytes. No buffer
holds `2 ^ 63` bytes, so that every length can be written. -/
theorem updates_interchange :
    (∀ (ε ε' : Type) (f : Bytes → Except ε Bytes) (g : Bytes → Except ε' Bytes)
      (stem path rest : List Nat) (number other : Nat) (msg left right : Bytes), number ≠ other →
      update f (stem ++ number :: path) msg = .ok (some left) → left.length < 2 ^ 64 →
      update g (stem ++ other :: rest) msg = .ok (some right) → right.length < 2 ^ 64 →
      ∃ out, update g (stem ++ other :: rest) left = .ok (some out) ∧
        update f (stem ++ number :: path) right = .ok (some out)) ∧
    (∀ (batch : Int) (bytes out : Bytes), bytes.length < 2 ^ 63 →
      ((pinSlot batch .input bytes >>= pinSlot batch .output) = .ok out ↔
        (pinSlot batch .output bytes >>= pinSlot batch .input) = .ok out)) := by
  constructor
  · intro ε ε' f g stem path rest number other msg left right hne hleft hlen hright hlen'
    exact update_diamond hne hleft hlen hright hlen'
  · intro batch bytes out hlen
    exact ⟨pinSlot_turn Slot.field_input_ne_output hlen,
      pinSlot_turn Slot.field_input_ne_output.symm hlen⟩

/-- The output of `looseModel` loses its type, and its input is replaced by bytes that do not
split. -/
theorem updates_interchange_looseModel :
    let clear : Bytes → Except Unit Bytes := fun _ => .ok []
    let spoil : Bytes → Except Unit Bytes := fun _ => .ok [0xFF]
    ∃ left right, update clear [7, 12, 2] looseModel = .ok (some left) ∧ left.length < 2 ^ 64 ∧
      update spoil [7, 11] looseModel = .ok (some right) ∧ right.length < 2 ^ 64 ∧
      (∃ out, update spoil [7, 11] left = .ok (some out) ∧
        update clear [7, 12, 2] right = .ok (some out)) ∧
      looseModel.length < 2 ^ 63 ∧
      (pinSlot 4 .output looseModel >>= pinSlot 4 .input) = .ok pinnedLooseModel := by
  intro clear spoil
  have hclear : update clear ([7] ++ 12 :: [2]) looseModel =
      .ok (some [0xA0, 0x06, 0x07, 0x3A, 0x1F, 0x62, 0x02, 0x12, 0x00, 0x88, 0x01, 0x05,
        0x5A, 0x16, 0x12, 0x11, 0x0A, 0x0F, 0x12, 0x0B, 0x0A, 0x09,
        0x1A, 0x01, 0x64, 0x12, 0x01, 0x4E, 0x08, 0x81, 0x00,
        0x08, 0x01, 0x0A, 0x01, 0x78, 0x08, 0x08]) :=
    toOption_eq_some_iff.1 (by decide +kernel)
  have hspoil : update spoil ([7] ++ 11 :: []) looseModel =
      .ok (some [0xA0, 0x06, 0x07, 0x3A, 0x10, 0x62, 0x08, 0x12, 0x06, 0x0A, 0x04, 0x12, 0x02,
        0x0A, 0x00, 0x88, 0x01, 0x05, 0x5A, 0x01, 0xFF, 0x08, 0x08]) :=
    toOption_eq_some_iff.1 (by decide +kernel)
  have hpin : (pinSlot 4 .input looseModel >>= pinSlot 4 .output) = .ok pinnedLooseModel :=
    toOption_eq_some_iff.1 (by decide +kernel)
  have hout := updates_interchange.1 Unit Unit clear spoil [7] [2] [] 12 11 looseModel _ _
    (by decide) hclear (by decide) hspoil (by decide)
  have hturned := (updates_interchange.2 4 looseModel pinnedLooseModel (by decide)).1 hpin
  exact ⟨_, _, hclear, by decide, hspoil, by decide, hout, by decide, hturned⟩

end QuantClassifier.Onnx
