import QuantClassifier.Decimal.Parse
import QuantClassifier.Files.View
import QuantClassifier.Text.Quoted
import QuantClassifier.Text.Split

/-!
# Feature files

Raw input values, separated by commas, that are fed to a model in its input shape.
-/

namespace QuantClassifier

/-- The tokens of a feature text: what stands between its commas, less white space and less the
tokens with nothing else in them. -/
def featureTokens (text : List Char) : List (List Char) :=
  ((Text.splitAt ',' text).map Text.trim).filter (!·.isEmpty)

/-- What a bad token fails with. -/
def badFeature (token : List Char) : Failure :=
  .ofKind (.parse s!"feature value {Text.quote (String.ofList token)}: invalid float literal")

/-- The value of a token. -/
def parseFeature (token : List Char) : Except Failure Single :=
  match Decimal.parse? .single token with
  | some x => .ok x
  | none => .error (badFeature token)

/-- The values of a feature text; the first bad token fails it. -/
def parseFeatures (text : String) : Except Failure (List Single) :=
  (featureTokens text.toList).mapM parseFeature

/-- The values of a feature file. -/
def loadFeatures (files : FileView) (path : String) : Except Failure (List Single) := do
  parseFeatures (← files.readText path)

/-- Features laid out in a shape, which must have as many places. -/
def featuresToTensor (features : List Single) (shape : Shape) : Except Stop Tensor :=
  match hcount : shape.count with
  | .ok expected =>
    if h : features.length = expected then
      .ok ⟨.f32, shape, features, h.trans (Shape.count_eq_ok_iff.1 hcount).2⟩
    else .error (.ofKind (.shapeMismatch shape [features.length]))
  | .error p => .error (.panic p)

end QuantClassifier
