import QuantClassifier.Extent.Parser
import QuantClassifier.Model.Basic
import QuantClassifier.Onnx.Constant
import QuantClassifier.Text.Utf8

/-!
# Descriptions of values

What an ONNX graph says of a value: a type and a shape, of which parts may be left open. Two
descriptions of a value are joined if they do not differ.
-/

namespace QuantClassifier.Onnx

/-- What is said of a value. -/
structure Description where
  dtype : Option DatumType
  shape : Option (List (Option Dimension))
  deriving DecidableEq

/-! ## Joining what is known -/

/-- What is known of a thing from two sources, which must not differ. -/
def joinKnown? {α : Type} [DecidableEq α] : Option α → Option α → Option (Option α)
  | some a, some b => if a = b then some (some a) else none
  | none, b => some b
  | a, none => some a

/-- What is known of the axes from two sources. -/
def joinAxes? : List (Option Dimension) → List (Option Dimension) →
    Option (List (Option Dimension))
  | [], [] => some []
  | d :: ds, e :: es => do return (← joinKnown? d e) :: (← joinAxes? ds es)
  | _, _ => none

/-- What is known of a shape from two sources. -/
def joinShapes? : Option (List (Option Dimension)) → Option (List (Option Dimension)) →
    Option (Option (List (Option Dimension)))
  | some ds, some es => (joinAxes? ds es).map some
  | none, es => some es
  | ds, none => some ds

namespace Description

/-- The description of nothing in particular. -/
def unknown : Description := ⟨none, none⟩

/-- The description of a tensor. -/
def ofTensor (t : Tensor) : Description :=
  ⟨some t.dtype, some (t.shape.map fun n => some (.fixed n))⟩

/-- What two descriptions of a value say together. -/
def join? (a b : Description) : Option Description := do
  return ⟨← joinKnown? a.dtype b.dtype, ← joinShapes? a.shape b.shape⟩

/-- The fact that a description amounts to, if it leaves nothing open. -/
def fact? (d : Description) : Option Fact := do
  return { dtype := ← d.dtype, shape := ← (← d.shape).mapM id }

end Description

/-! ## Reading descriptions -/

/-- Reading that may give numbers to the names of lengths. -/
abbrev Naming := StateT (List String) Option

/-- The dimension that an extent is. Numbers are words of 64 bits, which must not be negative. -/
def ofExtent? : Extent → Option Dimension
  | .number n => (length? (Int.bmod n 0x10000000000000000)).map .fixed
  | e => some (.symbol e.text)

/-- The dimension of a text. A question mark leaves it open, and so does a name that was made up,
unless these count. -/
def parseDimension (generated : Bool) (text : List Char) : Naming (Option Dimension) := do
  if text = ['?'] ∨ (!generated ∧ "unk__".toList.isPrefixOf text) then return none
  let (e, labels) ← Extent.parse? (← get) text
  set labels
  return some (← ofExtent? e)

/-- A dimension of a shape. Negative lengths leave it open. -/
def dimension (generated : Bool) (m : Message) : Naming (Option Dimension) := do
  match m.get? 1, m.get? 2 with
  | some (.int n), _ => return (length? n).map .fixed
  | _, some (.bytes text) => parseDimension generated (← Text.decodeUtf8? text).toList
  | _, _ => return none

/-- The description in a tensor type. -/
def tensorType (generated : Bool) (m : Message) : Naming Description := do
  let dtype ← elementType? (m.intOf 1)
  match m.child? 2 with
  | none => return { dtype := some dtype, shape := none }
  | some shape =>
    return { dtype := some dtype, shape := some (← (shape.children 1).mapM (dimension generated)) }

/-- The tensor type in what a graph says of a value. -/
def valueType? (info : Message) : Option Message := (info.child? 2).bind (·.child? 1)

/-- The description of an input, which must have a type. -/
def inputDescription (info : Message) : Naming Description := do
  tensorType true (← valueType? info)

/-- The description of a value within the graph. Whole numbers of 64 bits may be lengths and are
not known to be numbers. -/
def innerDescription (type : Message) : Naming Description := do
  let d ← tensorType false type
  return if d.dtype = some .i64 then { d with dtype := none } else d

end QuantClassifier.Onnx
