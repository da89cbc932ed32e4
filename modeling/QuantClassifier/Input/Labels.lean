import QuantClassifier.Files.View
import QuantClassifier.Text.Split

/-!
# Label files

A label file names the class of each score, one a line, in the order of the scores.
-/

namespace QuantClassifier

/-- The labels of a file: its lines without the white space at their ends. -/
def parseLabels (text : String) : List String :=
  (Text.lines text.toList).map fun line => String.ofList (Text.trimEnd line)

/-- The labels of a file. -/
def loadLabels (files : FileView) (path : String) : Except Failure (List String) :=
  (files.readText path).map parseLabels

end QuantClassifier
