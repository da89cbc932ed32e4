import QuantClassifier.Binary.Arithmetic
import QuantClassifier.Failure

/-!
# Normalizing pixels

How samples of eight bits become the real values that a model was trained on.
-/

namespace QuantClassifier

/-- The range that samples are brought to. -/
inductive Normalization where
  /-- From zero to one. -/
  | unit
  /-- From minus one to one. -/
  | symmetric
  /-- From zero to one, then centred and scaled by the statistics of a large set of photographs. -/
  | imagenet
  deriving DecidableEq, Repr

namespace Normalization

open Binary (ofPlaces)

/-- The name by which a normalization is asked for. -/
def name : Normalization → String
  | unit => "unit"
  | symmetric => "symmetric"
  | imagenet => "imagenet"

/-- The name of a normalization where it is shown as a value. -/
def label : Normalization → String
  | unit => "Unit"
  | symmetric => "Symmetric"
  | imagenet => "Imagenet"

/-- The normalization of a name. -/
def ofName (s : String) : Except Failure Normalization :=
  if s = unit.name then .ok unit
  else if s = symmetric.name then .ok symmetric
  else if s = imagenet.name then .ok imagenet
  else .error (.ofText s!"Unknown normalization {s}, expected unit, symmetric or imagenet")

theorem ofName_name (n : Normalization) : ofName n.name = .ok n := by
  cases n <;> simp [ofName, name]

/-- The mean of photographs in red, green and blue. -/
def means : List Single := [ofPlaces 485 3, ofPlaces 456 3, ofPlaces 406 3]

/-- The standard deviation of photographs in red, green and blue. -/
def deviations : List Single := [ofPlaces 229 3, ofPlaces 224 3, ofPlaces 225 3]

/-- The mean of three numbers. -/
def meanOfThree (xs : List Single) : Single := Binary.sum xs / Binary.ofNat 3

/-- The value of a sample, given the statistics of its channel. -/
def apply (n : Normalization) (mean deviation sample : Single) : Single :=
  match n with
  | unit => sample / Binary.ofNat 255
  | symmetric => sample / ofPlaces 1275 1 - Binary.ofNat 1
  | imagenet => (sample / Binary.ofNat 255 - mean) / deviation

/-- The value of a sample of red, green or blue. -/
def color (n : Normalization) (k : Fin 3) (sample : Single) : Single :=
  n.apply (means.get k) (deviations.get k) sample

/-- The value of a grey sample, whose statistics are the means of those of the colours. -/
def gray (n : Normalization) (sample : Single) : Single :=
  n.apply (meanOfThree means) (meanOfThree deviations) sample

/-- The value of a sample of one of some channels. -/
def ofChannel (n : Normalization) (channels k : Nat) (sample : Single) : Single :=
  if channels = 3 then n.color (Fin.ofNat 3 k) sample else n.gray sample

end Normalization

end QuantClassifier
