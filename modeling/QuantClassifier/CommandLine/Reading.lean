import QuantClassifier.CommandLine.Grammar
import QuantClassifier.Decimal.Parse

/-!
# Values on a command line

Whole numbers are digits behind an optional sign and have a range; a path is any text but the empty
one.
-/

namespace QuantClassifier.CommandLine

/-- A text that may have anything in it. -/
def readText (text : String) : Except Refusal String := .ok text

/-- A path. -/
def readPath (text : String) : Except Refusal String :=
  if text.isEmpty then .error .missingValue else .ok text

/-- A value that some function reads. -/
def readWith {ε α : Type} (f : String → Except ε α) (text : String) : Except Refusal α :=
  (f text).mapError fun _ => .invalidValue

/-- A number of 64 bits. -/
def readCount (text : String) : Except Refusal Nat :=
  let cs := match text.toList with
    | '+' :: cs => cs
    | cs => cs
  match Decimal.natural? cs with
  | some n => if n < 0x10000000000000000 then .ok n else .error .invalidValue
  | none => .error .invalidValue

/-- A number of 64 bits with a sign. -/
def readInteger (text : String) : Except Refusal Int :=
  let (negative, cs) := Decimal.splitSign text.toList
  match Decimal.natural? cs with
  | some n =>
    let z : Int := if negative then -n else n
    if -0x8000000000000000 ≤ z ∧ z < 0x8000000000000000 then .ok z else .error .invalidValue
  | none => .error .invalidValue

end QuantClassifier.CommandLine
