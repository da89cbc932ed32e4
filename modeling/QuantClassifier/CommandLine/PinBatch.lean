import QuantClassifier.CommandLine.Reading

/-!
# The command line of the batch dimension fixer

The options name the model to read, the file to write, and the batch size.
-/

namespace QuantClassifier.CommandLine

/-- The options of the batch dimension fixer. -/
inductive PinBatchOption where
  | inFile
  | outFile
  | batchSize
  | verbose
  | help
  | version
  deriving DecidableEq, Repr

namespace PinBatchOption

/-- What an option stands for. -/
abbrev Value : PinBatchOption → Type
  | inFile | outFile => String
  | batchSize => Int
  | verbose | help | version => Unit

/-- What an option takes. -/
def form : (i : PinBatchOption) → Form i.Value
  | inFile => .argument readPath
  | outFile => .argument readPath
  | batchSize => .argument readInteger
  | verbose => .counter ()
  | help => .stop .help
  | version => .stop .version

/-- How the options are written. -/
def spellings : List (Spelling × PinBatchOption) :=
  [(.long "in-file".toList, inFile), (.long "out-file".toList, outFile),
    (.long "batch-size".toList, batchSize), (.short 'v', verbose), (.short 'h', help),
    (.long "help".toList, help), (.short 'V', version), (.long "version".toList, version)]

/-- The grammar of the fixer's command line. -/
def grammar : Grammar PinBatchOption Value := { spellings, form }

end PinBatchOption

/-- What a run of the fixer does. -/
structure PinBatchParameters where
  inFile : String
  outFile : String
  batchSize : Int
  deriving DecidableEq, Repr

/-- The batch size that is set unless another one is given. -/
def defaultBatchSize : Int := 1

namespace PinBatchParameters

/-- The parameters that the options of a command line make. -/
def ofOccurrences (xs : Occurrences PinBatchOption.Value) : Except Refusal PinBatchParameters :=
  match (xs.value? .inFile : Option String), (xs.value? .outFile : Option String) with
  | some inFile, some outFile =>
    .ok { inFile, outFile, batchSize := (xs.value? .batchSize).getD defaultBatchSize }
  | _, _ => .error .missingArgument

/-- The parameters of a command line. -/
def read (arguments : List String) : Except Refusal PinBatchParameters := do
  ofOccurrences (← PinBatchOption.grammar.parse arguments)

end PinBatchParameters

end QuantClassifier.CommandLine
