import QuantClassifier.Files.View
import QuantClassifier.Model.Slots
import QuantClassifier.Onnx.Graph
import QuantClassifier.Tflite.Graph

/-!
# Model files

A model file is read in the format that is asked for, or else in the one that its extension tells.
-/

namespace QuantClassifier

/-- The model in the bytes of a file. -/
def ModelFormat.decode? : ModelFormat → List UInt8 → Option Model
  | tflite => Tflite.model?
  | onnx => Onnx.model?

/-- The usable model in a file. The file must exist before its format matters. -/
def loadModel (files : FileView) (path : String) (format : Option ModelFormat) :
    Except Stop UsableModel := do
  let bytes ← files.read path
  let format ← match format with
    | some f => pure f
    | none => ModelFormat.ofPath path
  match format.decode? bytes with
  | some model => UsableModel.ofModel format model
  | none => throw (.ofKind (.parse s!"reading {format.name} model {path}"))

end QuantClassifier
