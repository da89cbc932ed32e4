import QuantClassifier.Failure
import QuantClassifier.Onnx.BatchDimension
import QuantClassifier.Text.Quoted

/-!
# Failures of pinning

The wording and the kind of what stops the batch dimension from being set.
-/

namespace QuantClassifier.Onnx

/-- The wording of what a model lacks. -/
def Missing.text : Missing → String
  | graph => "model has no graph"
  | value slot => s!"graph has no {slot.name}"
  | shape slot name =>
    let quoted := Text.quote ((Text.decodeUtf8? name).getD "")
    s!"{slot.name} {quoted} has no tensor shape"
  | dimension slot => s!"first {slot.name} has no dimension"

/-- The failure of a model that lacks something. -/
def Missing.failure (m : Missing) : Failure := .ofKind (.missingShape m.text)

/-- Bytes that are no model. -/
def undecodable : Failure := .ofKind (.parse "decoding ONNX protobuf")

/-- The failure of a model that was not pinned. -/
def PinError.failure : PinError → Failure
  | undecodable => Onnx.undecodable
  | missing what => what.failure
  | malformed e => .ofText e.message
  | unexpected => .ofText "Rewritten model does not decode to the expected model"

end QuantClassifier.Onnx
