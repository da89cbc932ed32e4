import QuantClassifier.CommandLine.PinBatch
import QuantClassifier.Onnx.File
import QuantClassifier.Program.Exit

/-!
# The batch dimension fixer

The program reads an ONNX model, pins its batch dimension, and writes it. It prints nothing.
-/

namespace QuantClassifier

open CommandLine

namespace PinBatchProgram

/-- What the program tells of itself. -/
def info : ProgramInfo where
  name := "onnx-fix"
  version := "0.1.0-pre"
  purpose := "Pin the batch dimension of an ONNX model's first input and output"
  usage := "[OPTIONS] --in-file <IN_FILE> --out-file <OUT_FILE>"
  options :=
    [("    --in-file <IN_FILE>", "Model to read"),
      ("    --out-file <OUT_FILE>", "Where to write the fixed model (may be the input file)"),
      ("    --batch-size <BATCH_SIZE>",
        s!"Value written to the first dimension [default: {defaultBatchSize}]")]

/-- The parameters of a command line, or how the run ends without them. -/
def parameters (arguments : List String) : Except Exit PinBatchParameters :=
  (PinBatchParameters.read arguments).mapError (Exit.refused info)

/-- A run of the program, and the store that it leaves. -/
def run (s : Store) (arguments : List String) : Store × Exit :=
  match parameters arguments with
  | .error e => (s, e)
  | .ok p =>
    match Onnx.fixFile s p.inFile p.outFile p.batchSize with
    | .ok s' => (s', .success none)
    | .error f => (s, .failed f)

end PinBatchProgram

end QuantClassifier
