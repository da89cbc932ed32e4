import QuantClassifier.Failure
import QuantClassifier.Report.ArrayText
import QuantClassifier.Report.Document
import QuantClassifier.Report.Ranking

/-!
# Reports

What one inference produced: the scores under their shape, how long it took, and the best scores if
they were asked for. A report is written as text or as a JSON document.
-/

namespace QuantClassifier

/-- The outcome of one inference. -/
structure Report where
  shape : Shape
  scores : List Single
  elapsedMs : Double
  predictions : List Prediction
  deriving DecidableEq

namespace Report

/-- A span of time in milliseconds: whole seconds and the rest are converted apart. -/
def milliseconds (nanoseconds : Nat) : Double :=
  (Binary.ofNat (nanoseconds / 1000000000) +
    Binary.ofNat (nanoseconds % 1000000000) / Binary.ofNat 1000000000) *
    Binary.ofNat 1000

/-- The report of a float tensor; other tensors hold no scores. -/
def ofTensor (t : Tensor) (elapsedMs : Double) : Except Failure Report :=
  match t.floats? with
  | some scores => .ok { shape := t.shape, scores, elapsedMs, predictions := [] }
  | none =>
    .error (.ofText s!"Tensor datum type error: tensor is {t.dtype.text}, accessed as F32")

/-- The report with its `k` best scores. -/
def withTopK (r : Report) (k : Nat) (labels : Option (List String)) : Report :=
  { r with predictions := topK r.scores k labels }

/-- A text filled up with spaces in front. -/
def alignRight (width : Nat) (s : String) : String :=
  String.ofList (List.replicate (width - s.length) ' ') ++ s

/-- A text filled up with spaces behind. -/
def alignLeft (width : Nat) (s : String) : String :=
  s ++ String.ofList (List.replicate (width - s.length) ' ')

/-- The line of a prediction: place, label and score to five places. -/
def predictionLine (p : Prediction) : String :=
  let index := alignRight 6 (toString p.index)
  let score := Decimal.fixed 5 p.score
  match p.label with
  | some label => index ++ " " ++ alignLeft 24 label ++ " " ++ score
  | none => index ++ " " ++ score

/-- The time in whole milliseconds. -/
def tookMs (r : Report) : Int := r.elapsedMs.roundHalfAway 0 0xFFFFFFFFFFFFFFFF

/-- The report as lines of text. -/
def text (r : Report) : String :=
  let array := "f_output " ++ ArrayText.render r.shape r.scores
  let took := s!"took {r.tookMs} ms."
  "\n".intercalate (array :: r.predictions.map predictionLine ++ [took])

/-- A score as a number of a document. -/
def scoreDocument (x : Single) : Document := .number (Decimal.text Decimal.jsonSingle x)

/-- A whole number of a document. -/
def countDocument (n : Nat) : Document := .number (toString n)

/-- A prediction as a document. -/
def predictionDocument (p : Prediction) : Document :=
  .object [("index", countDocument p.index),
    ("label", match p.label with
      | some label => .string label
      | none => .null),
    ("score", scoreDocument p.score)]

/-- The report as a document. -/
def document (r : Report) : Document :=
  .object [("shape", .list (r.shape.map countDocument)),
    ("scores", .list (r.scores.map scoreDocument)),
    ("elapsed_ms", .number (Decimal.text Decimal.jsonDouble r.elapsedMs)),
    ("predictions", .list (r.predictions.map predictionDocument))]

end Report

end QuantClassifier
