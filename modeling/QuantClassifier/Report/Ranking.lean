import QuantClassifier.Binary.Arithmetic

/-!
# Ranking scores

The best scores of a list, best first, with the labels of their places. Scores are ordered by the
total order of floats, and equal ones stay in the order of their places.
-/

namespace QuantClassifier

/-- A score, the place it had, and that place's label if it has one. -/
structure Prediction where
  index : Nat
  label : Option String
  score : Single
  deriving DecidableEq

/-- The label of a place. -/
def labelAt (labels : Option (List String)) (index : Nat) : Option String :=
  labels.bind (·[index]?)

/-- The first of two scores with their places is not worse. -/
def notWorse (a b : Single × Nat) : Bool := b.1.totalKey ≤ a.1.totalKey

/-- The `k` best scores. -/
def topK (scores : List Single) (k : Nat) (labels : Option (List String)) : List Prediction :=
  ((scores.zipIdx.mergeSort notWorse).take k).map fun (score, index) =>
    { index, label := labelAt labels index, score }

end QuantClassifier
