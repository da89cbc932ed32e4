import QuantClassifier.Classifier
import QuantClassifier.CommandLine.Classify
import QuantClassifier.Image.File
import QuantClassifier.Image.Preprocess
import QuantClassifier.Input.Features
import QuantClassifier.Input.Labels
import QuantClassifier.Model.File
import QuantClassifier.Program.Exit

/-!
# The classifying program

The program loads a model, feeds it the image or the features of a file, and prints the report.
-/

namespace QuantClassifier

open CommandLine

namespace ClassifyProgram

/-- What the program tells of itself. -/
def info : ProgramInfo where
  name := "qrun"
  version := "0.1.0-pre"
  purpose := "Run a quantized image classifier"
  usage := "[OPTIONS] --model <MODEL> <--image <IMAGE>|--features <FEATURES>>"
  options :=
    [("    --use-npu", "Run on the hardware accelerated (npu) delegate"),
      ("    --delegate <DELEGATE>",
        "Execution delegate: default, unoptimized or npu [default: default]"),
      ("    --model <MODEL>", "Model file (.tflite, .lite or .onnx)"),
      ("    --image <IMAGE>", "Image to classify"),
      ("    --features <FEATURES>", "Comma separated raw input values, fed instead of an image"),
      ("    --format <FORMAT>", "Model format, guessed from the extension if absent"),
      ("    --normalize <NORMALIZE>",
        "Pixel normalization: unit, symmetric or imagenet [default: unit]"),
      ("    --labels <LABELS>", "Class labels, one per line"),
      ("    --top-k <TOP_K>", "Number of best scores to print"),
      ("    --json", "Print the report as JSON")]

/-- The classifier that parameters ask for. -/
def classifier (files : FileView) (p : ClassifyParameters) : Except Stop Classifier := do
  let delegate ← Delegate.ofName p.delegate
  Classifier.prepare delegate (← loadModel files p.model p.format)

/-- The input of a file for a classifier. -/
def input (files : FileView) (c : Classifier) (normalization : Normalization) :
    InputSource → Except Stop Tensor
  | .image path => do
    let image ← loadImage files path
    preprocess image (← c.input.geometry) normalization
  | .features path => do featuresToTensor (← loadFeatures files path) c.input.shape

/-- The report that parameters ask for. -/
def report (files : FileView) (p : ClassifyParameters) (elapsedMs : Double) :
    Except Stop Report := do
  let c ← classifier files p
  let input ← input files c p.normalization p.input
  let labels ← (p.labels.mapM (loadLabels files) : Except Failure (Option (List String)))
  let report ← c.classify input elapsedMs
  match p.topK with
  | some k => return report.withTopK k labels
  | none => return report

/-- The text that is printed of a report. -/
def printed (p : ClassifyParameters) (r : Report) : String :=
  if p.json then r.document.text else r.text

/-- The parameters of a command line, or how the run ends without them. -/
def parameters (arguments : List String) : Except Exit ClassifyParameters := do
  let settings ← (ClassifyArguments.read arguments).mapError (Exit.refused info)
  settings.parameters.mapError Exit.failed

/-- The end of a run with some outcome. -/
def finish (p : ClassifyParameters) : Except Stop Report → Exit
  | .ok r => .success (printed p r)
  | .error s => .stopped s

/-- A run of the program. -/
def run (files : FileView) (arguments : List String) (elapsedMs : Double) : Exit :=
  match parameters arguments with
  | .ok p => finish p (report files p elapsedMs)
  | .error e => e

end ClassifyProgram

end QuantClassifier
