import QuantClassifier.Tensor.Basic

/-!
# Summaries of tensors

A message that speaks of a tensor shows its axes, its type and its first elements. Quantized
elements are shown as stored and, in parentheses, as the real numbers that they stand for.
-/

namespace QuantClassifier

/-- Axes, joined by commas. -/
def axesText (axes : List String) : String := ",".intercalate axes

namespace DatumType

/-- An element in a summary. -/
def elementText : (t : DatumType) → t.Element → String
  | .f32 => Decimal.text Decimal.plain
  | .quantized _ z => fun q =>
    let real := Decimal.text Decimal.plain (z.restore q)
    s!"[{q}]({real})"
  | .bool | .u8 | .u16 | .u32 | .u64 | .i8 | .i16 | .i32 | .i64 | .f16 | .f64 | .dimension
  | .string | .blob => fun (q : Int) => toString q

end DatumType

namespace Tensor

/-- The most elements that a summary shows. -/
def summaryLimit : Nat := 12

/-- The summary of a tensor. -/
def summary (t : Tensor) : String :=
  let elements := ", ".intercalate ((t.data.take summaryLimit).map t.dtype.elementText)
  let rest := if summaryLimit < t.data.length then "..." else ""
  s!"{axesText (t.shape.map toString)},{t.dtype.text} {elements}{rest}"

end Tensor

end QuantClassifier
