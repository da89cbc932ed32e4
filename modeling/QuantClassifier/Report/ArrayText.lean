import QuantClassifier.Decimal.Style
import QuantClassifier.Tensor.Basic

/-!
# Arrays as text

A list of numbers is shown under a shape as nested brackets, the last axis on one line. Large arrays
show only both ends of their long axes.
-/

namespace QuantClassifier.ArrayText

/-- Arrays with as many elements as this are shortened. -/
def shortenedFrom : Nat := 500

/-- The longest axis that is shown whole in a shortened array, by the number of axes inside it. -/
def axisLimit : (inner : Nat) → Nat
  | 0 => 11
  | 1 => 11
  | _ => 6

/-- The items of an axis that are shown; the absent one stands for those left out. -/
def shown (limit : Option Nat) (n : Nat) : List (Option Nat) :=
  let whole := (List.range n).map some
  match limit with
  | none => whole
  | some limit =>
    if n ≤ limit then whole
    else
      let edge := limit / 2
      (List.range edge).map some ++ none :: (List.range edge).map fun i => some (n - edge + i)

/-- What stands between the items of an axis with `inner` axes inside it. -/
def separator (depth : Nat) : (inner : Nat) → String
  | 0 => ", "
  | inner + 1 =>
    ",\n" ++ String.ofList (List.replicate inner '\n') ++
      String.ofList (List.replicate (depth + 1) ' ')

/-- The elements under a shape, from some depth of brackets on. -/
def nested (shorten : Bool) (depth : Nat) : Shape → List String → String
  | [], elements => elements.headD ""
  | n :: shape, elements =>
    let size := Shape.product shape
    let limit := if shorten then some (axisLimit shape.length) else none
    let items := (shown limit n).map fun
      | none => "..."
      | some i => nested shorten (depth + 1) shape ((elements.drop (i * size)).take size)
    "[" ++ (separator depth shape.length).intercalate items ++ "]"

/-- The array has no elements, so that only the brackets of its axes are shown. -/
def brackets (rank : Nat) : String :=
  String.ofList (List.replicate rank '[' ++ List.replicate rank ']')

/-- The dimensions other than zero, multiplied, fit a signed 64 bit word, and there are elements for
every place. -/
def fits (shape : Shape) (count : Nat) : Bool :=
  Shape.product (shape.filter (· ≠ 0)) < 0x8000000000000000 && shape.product ≤ count

/-- The scores under a shape, or in a plain list if they do not fit it. -/
def render (shape : Shape) (scores : List Single) : String :=
  if fits shape scores.length then
    if shape.contains 0 then brackets shape.length
    else
      let size := Shape.product shape
      nested (shortenedFrom ≤ size) 0 shape ((scores.take size).map (Decimal.text Decimal.plain))
  else "[" ++ ", ".intercalate (scores.map (Decimal.text Decimal.inspected)) ++ "]"

end QuantClassifier.ArrayText
