import QuantClassifier.Main
import QuantClassifier.Proofs.Onnx.BatchFrame
import QuantClassifier.Proofs.Onnx.Refixing
import QuantClassifier.Proofs.Onnx.CanonicalPatch
import QuantClassifier.Proofs.Wire.Grammar
import QuantClassifier.Proofs.Binary.LittleEndian
import QuantClassifier.Proofs.Onnx.Typed
import QuantClassifier.Proofs.Wire.Normalizing
import QuantClassifier.Proofs.Onnx.PatchOrder
import QuantClassifier.Proofs.Onnx.RoundTrip
import QuantClassifier.Proofs.Onnx.EditOutcome
import QuantClassifier.Proofs.Onnx.UnrelatedContent
import QuantClassifier.Proofs.Onnx.SplitMessages
import QuantClassifier.Proofs.Onnx.DecodedType
import QuantClassifier.Proofs.Quantization.Discovery
import QuantClassifier.Proofs.Quantization.StepError
import QuantClassifier.Proofs.Quantization.Monotonicity
import QuantClassifier.Proofs.Quantization.CarriedParams
import QuantClassifier.Proofs.Report.Ranking
import QuantClassifier.Proofs.Image.Buffer
import QuantClassifier.Proofs.Classifier.Elementwise
import QuantClassifier.Proofs.Classifier.Admission
import QuantClassifier.Proofs.Wire.Truncation
import QuantClassifier.Proofs.Model.Acceptance
import QuantClassifier.Proofs.Image.Range
import QuantClassifier.Proofs.Input.Features
import QuantClassifier.Proofs.Input.Labels
import QuantClassifier.Proofs.Model.Guessing
import QuantClassifier.Proofs.CommandLine.Parameters
import QuantClassifier.Proofs.Onnx.PinnedRecords
