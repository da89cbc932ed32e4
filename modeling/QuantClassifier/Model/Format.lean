import QuantClassifier.Failure
import QuantClassifier.Files.Path

/-!
# Model formats

The format of a model file is given by name or guessed from the extension of its path, which only
the last component of the path has.
-/

namespace QuantClassifier

/-- The formats of model files. -/
inductive ModelFormat where
  | tflite
  | onnx
  deriving DecidableEq, Repr

namespace ModelFormat

/-- The name of a format. -/
def name : ModelFormat → String
  | tflite => "tflite"
  | onnx => "onnx"

/-- The name of a format where it is shown as a value. -/
def label : ModelFormat → String
  | tflite => "Tflite"
  | onnx => "Onnx"

/-- The format of a lower case extension. -/
def ofExtension? (ext : List Char) : Option ModelFormat :=
  if ext = "tflite".toList ∨ ext = "lite".toList then some tflite
  else if ext = "onnx".toList then some onnx
  else none

/-- What is said if no format is told. -/
def noGuess (path : String) : Failure :=
  .ofKind (.unsupportedFormat s!"can not guess model format of {path}, use --format")

/-- The format that the extension of a path tells, in any case. -/
def ofPath (path : String) : Except Failure ModelFormat :=
  match (Path.lowerExtension? path).bind ofExtension? with
  | some f => .ok f
  | none => .error (noGuess path)

/-- The format of a name. -/
def ofName (s : String) : Except Failure ModelFormat :=
  if s = tflite.name then .ok tflite
  else if s = onnx.name then .ok onnx
  else .error (.ofKind (.unsupportedFormat s!"model format {s}"))

theorem ofName_name (f : ModelFormat) : ofName f.name = .ok f := by
  cases f <;> simp [ofName, name]

end ModelFormat

end QuantClassifier
