import QuantClassifier.CommandLine.Reading
import QuantClassifier.Delegate
import QuantClassifier.Image.Normalization
import QuantClassifier.Model.Format

/-!
# The command line of the classifier

The options name a model, exactly one input and, perhaps, labels. The parameters of a run follow
from them: the hardware delegate goes before a named one, and labels ask for some best scores.
-/

namespace QuantClassifier.CommandLine

/-- The options of the classifier. -/
inductive ClassifyOption where
  | useNpu
  | delegate
  | model
  | image
  | features
  | format
  | normalize
  | labels
  | topK
  | json
  | verbose
  | help
  | version
  deriving DecidableEq, Repr

namespace ClassifyOption

/-- What an option stands for. -/
abbrev Value : ClassifyOption → Type
  | useNpu | json | verbose | help | version => Unit
  | delegate | model | image | features | labels => String
  | format => ModelFormat
  | normalize => Normalization
  | topK => Nat

/-- What an option takes. -/
def form : (i : ClassifyOption) → Form i.Value
  | useNpu => .flag ()
  | json => .flag ()
  | verbose => .counter ()
  | help => .stop .help
  | version => .stop .version
  | delegate => .argument readText
  | model => .argument readPath
  | image => .argument readPath
  | features => .argument readPath
  | labels => .argument readPath
  | format => .argument (readWith ModelFormat.ofName)
  | normalize => .argument (readWith Normalization.ofName)
  | topK => .argument readCount

/-- How the options are written. -/
def spellings : List (Spelling × ClassifyOption) :=
  [(.long "use-npu".toList, useNpu), (.long "delegate".toList, delegate),
    (.long "model".toList, model), (.long "image".toList, image),
    (.long "features".toList, features), (.long "format".toList, format),
    (.long "normalize".toList, normalize), (.long "labels".toList, labels),
    (.long "top-k".toList, topK), (.long "json".toList, json), (.short 'v', verbose),
    (.short 'h', help), (.long "help".toList, help), (.short 'V', version),
    (.long "version".toList, version)]

/-- The grammar of the classifier's command line. -/
def grammar : Grammar ClassifyOption Value := { spellings, form }

end ClassifyOption

/-- The settings that a command line makes. -/
structure ClassifyArguments where
  useNpu : Bool
  delegate : String
  model : String
  image : Option String
  features : Option String
  format : Option ModelFormat
  normalization : Normalization
  labels : Option String
  topK : Option Nat
  json : Bool
  verbosity : Nat
  deriving DecidableEq

/-- The greatest verbosity. -/
def verbosityLimit : Nat := 255

namespace ClassifyArguments

/-- The settings that the options of a command line make: a model and exactly one input are
required, the other options have defaults. -/
def ofOccurrences (xs : Occurrences ClassifyOption.Value) : Except Refusal ClassifyArguments :=
  let image : Option String := xs.value? .image
  let features : Option String := xs.value? .features
  if image.isSome ∧ features.isSome then .error .conflict
  else
    match (xs.value? .model : Option String), image <|> features with
    | some model, some _ =>
      .ok
        { useNpu := xs.has .useNpu
          delegate := (xs.value? .delegate).getD Delegate.optimized.name
          model, image, features
          format := xs.value? .format
          normalization := (xs.value? .normalize).getD .unit
          labels := xs.value? .labels
          topK := xs.value? .topK
          json := xs.has .json
          verbosity := min (xs.count .verbose) verbosityLimit }
    | _, _ => .error .missingArgument

/-- The settings of a command line. -/
def read (arguments : List String) : Except Refusal ClassifyArguments := do
  ofOccurrences (← ClassifyOption.grammar.parse arguments)

end ClassifyArguments

/-- Where the input of a run comes from. -/
inductive InputSource where
  | image (path : String)
  | features (path : String)
  deriving DecidableEq, Repr

/-- What a run of the classifier does. -/
structure ClassifyParameters where
  model : String
  format : Option ModelFormat
  delegate : String
  input : InputSource
  normalization : Normalization
  labels : Option String
  topK : Option Nat
  json : Bool
  deriving DecidableEq

/-- The number of best scores that labels ask for. -/
def defaultTopK : Nat := 5

/-- The input of a run: exactly one of two paths. -/
def InputSource.ofPaths : Option String → Option String → Except Failure InputSource
  | some path, none => .ok (.image path)
  | none, some path => .ok (.features path)
  | _, _ => .error (.ofText "Exactly one of --image and --features is required")

/-- The parameters that settings amount to. -/
def ClassifyArguments.parameters (a : ClassifyArguments) : Except Failure ClassifyParameters := do
  return {
    model := a.model
    format := a.format
    delegate := if a.useNpu then Delegate.hardware else a.delegate
    input := ← InputSource.ofPaths a.image a.features
    normalization := a.normalization
    labels := a.labels
    topK := a.topK <|> a.labels.map fun _ => defaultTopK
    json := a.json }

end QuantClassifier.CommandLine
