import QuantClassifier.Program.Classify
import QuantClassifier.Program.PinBatch

/-!
# Command line

Runs one of the two programs on the files of the system. The first argument names the program.
-/

namespace QuantClassifier

/-- The bytes of a file, if it can be read. -/
def readFile? (path : String) : IO (Option (List UInt8)) := do
  try
    let bytes ← IO.FS.readBinFile path
    return some bytes.toList
  catch _ => return none

/-- The files at some paths. -/
def viewFiles (paths : List String) : IO FileView := do
  let contents ← paths.mapM fun path => return (path, ← readFile? path)
  return fun path => (contents.lookup path).join

/-- Why the system refused to do something. -/
def systemReason : IO.Error → String
  | .noFileOrDirectory _ code details | .inappropriateType _ code details
  | .permissionDenied _ code details | .invalidArgument _ code details =>
    s!"{details} (os error {code})"
  | e => toString e

/-- Prints what a run printed and logs its failure. -/
def conclude (e : Exit) : IO UInt32 := do
  if let some text := e.output then IO.println text
  if let some f := e.failure then IO.eprintln f.fullText
  return UInt32.ofNat e.code

/-- The files that a run of the classifier reads. -/
def CommandLine.ClassifyParameters.paths (p : CommandLine.ClassifyParameters) : List String :=
  let input := match p.input with
    | .image path => path
    | .features path => path
  p.model :: input :: p.labels.toList

/-- Runs the classifier. -/
def runClassify (arguments : List String) : IO UInt32 := do
  match ClassifyProgram.parameters arguments with
  | .error e => conclude e
  | .ok p =>
    let files ← viewFiles p.paths
    let start ← IO.monoNanosNow
    let outcome := ClassifyProgram.report files p (Binary.zero false)
    let succeeded := outcome.isOk
    let stop ← IO.monoNanosNow
    let elapsedMs := if succeeded then Report.milliseconds (stop - start) else Binary.zero false
    conclude (ClassifyProgram.finish p (outcome.map fun r => { r with elapsedMs }))

/-- Runs the batch dimension fixer. -/
def runPinBatch (arguments : List String) : IO UInt32 := do
  match PinBatchProgram.parameters arguments with
  | .error e => conclude e
  | .ok p =>
    let files ← viewFiles [p.inFile]
    match Onnx.pinFile files p.inFile p.batchSize with
    | .error f => conclude (.failed f)
    | .ok bytes =>
      try
        IO.FS.writeBinFile p.outFile ⟨bytes.toArray⟩
        conclude (.success none)
      catch e => conclude (.failed (.creating p.outFile (systemReason e)))

end QuantClassifier

/-- The names of the programs come first on the command line. -/
def main (arguments : List String) : IO UInt32 := do
  match arguments with
  | program :: rest =>
    if program = QuantClassifier.ClassifyProgram.info.name then QuantClassifier.runClassify rest
    else if program = QuantClassifier.PinBatchProgram.info.name then
      QuantClassifier.runPinBatch rest
    else do
      IO.eprintln s!"unknown program {program}"
      return 2
  | [] => do
    IO.eprintln "no program is named"
    return 2
