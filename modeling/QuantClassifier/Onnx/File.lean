import QuantClassifier.Files.Store
import QuantClassifier.Onnx.PinFailure

/-!
# ONNX files

Reading and writing decoded models, and pinning the batch dimension of a model from one file to
another one, which may be the same.
-/

namespace QuantClassifier.Onnx

/-- The decoded model in a file. -/
def readModel (files : FileView) (path : String) : Except Failure Message := do
  match decode? .model (← files.read path) with
  | some model => return model
  | none => throw undecodable

/-- Writes a model to a file. -/
def writeModel (s : Store) (path : String) (model : Message) : Except Failure Store :=
  s.write path (encode model)

/-- The pinned model of a file as bytes. -/
def pinFile (files : FileView) (path : String) (batch : Int) : Except Failure Wire.Bytes := do
  let bytes ← files.read path
  match pinBatch batch bytes with
  | .ok pinned => return pinned
  | .error e => throw (e.failure.within (.other s!"fixing {path}"))

/-- Pins the model of a file and writes it. -/
def fixFile (s : Store) (inFile outFile : String) (batch : Int) : Except Failure Store := do
  s.write outFile (← pinFile s.file? inFile batch)

end QuantClassifier.Onnx
