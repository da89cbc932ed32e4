import QuantClassifier.Model.Basic
import QuantClassifier.Model.Format
import QuantClassifier.Model.Geometry
import QuantClassifier.Quantization.Params

/-!
# Slots

A classifier feeds the first input of a model and reads its first output. Both slots must store a
type that can be quantized to, and the shape of the input must be known and hold values.
-/

namespace QuantClassifier

/-- The shape and the quantization of an input. -/
structure InputSlot where
  shape : Shape
  slotType : SlotType
  params : QuantParams
  deriving DecidableEq

namespace InputSlot

/-- The number of values that the input takes. -/
def size (s : InputSlot) : Except Panic Nat := s.shape.count

/-- The input takes no value. -/
def isEmpty (s : InputSlot) : Except Panic Bool := do return (← s.size) = 0

/-- Counted values of an input are none exactly if an axis has no length. -/
theorem isEmpty_eq_ok_iff {s : InputSlot} {b : Bool} :
    s.isEmpty = .ok b ↔ ¬ s.shape.Overflows ∧ b = decide (0 ∈ s.shape) := by
  simp only [isEmpty, size, bind_eq_ok_iff, pure_eq_ok_iff, Shape.count_eq_ok_iff, ←
    Shape.product_eq_zero_iff]
  constructor
  · rintro ⟨n, ⟨hfits, rfl⟩, rfl⟩
    exact ⟨hfits, rfl⟩
  · rintro ⟨hfits, rfl⟩
    exact ⟨_, ⟨hfits, rfl⟩, rfl⟩

theorem isEmpty_eq_error_iff {s : InputSlot} {p : Panic} :
    s.isEmpty = .error p ↔ s.shape.Overflows ∧ p = .overflow := by
  rw [← Shape.count_eq_error_iff, isEmpty, size]
  cases s.shape.count <;> simp [bind, Except.bind, pure, Except.pure]

/-- The input as one that takes an image. -/
def geometry (s : InputSlot) : Except Failure Geometry := Geometry.ofShape s.shape

end InputSlot

/-- The quantization of an output. -/
structure OutputSlot where
  slotType : SlotType
  params : QuantParams
  deriving DecidableEq

/-- A model together with its first slots. -/
structure UsableModel where
  format : ModelFormat
  model : Model
  input : InputSlot
  output : OutputSlot

/-- What is said of an input that has an axis without a known length. -/
def InputSlot.unknownLength (f : Fact) : FailureKind :=
  .missingShape s!"input shape {f.axes} is not concrete, fix the batch dimension (onnx-fix) first"

/-- What is said of an input without values. -/
def InputSlot.noValue (shape : Shape) : FailureKind :=
  .missingShape s!"input shape {shape.text} holds no value"

/-- The slot of an input. -/
def InputSlot.ofFact (f : Fact) : Except Stop InputSlot := do
  match f.concrete? with
  | none => throw (.ofKind (unknownLength f))
  | some shape =>
    let slot : InputSlot :=
      { shape, slotType := ← SlotType.ofDatumType f.dtype, params := .ofDatumType f.dtype }
    if ← slot.isEmpty then
      throw (.ofKind (noValue shape))
    return slot

/-- The slot of an output. -/
def OutputSlot.ofDatumType (t : DatumType) : Except Failure OutputSlot := do
  return { slotType := ← SlotType.ofDatumType t, params := .ofDatumType t }

/-- A model that can be used as a classifier. -/
def UsableModel.ofModel (format : ModelFormat) (m : Model) : Except Stop UsableModel := do
  match m.inputs.head?, m.outputs.head? with
  | none, _ => throw (.ofText "Model has no input")
  | some _, none => throw (.ofText "Model has no output")
  | some first, some output =>
    let input ← InputSlot.ofFact first.fact
    return { format, model := m, input, output := ← OutputSlot.ofDatumType (m.outputType output) }

end QuantClassifier
