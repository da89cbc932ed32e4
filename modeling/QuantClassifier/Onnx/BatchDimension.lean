import QuantClassifier.Onnx.Decode
import QuantClassifier.Onnx.Encode
import QuantClassifier.Wire.Update

/-!
# Pinning the batch dimension

The first dimension of a graph's first input and of its first output is set to a number, in two
ways. `setBatch` edits the decoded model. `pinBatch` patches the two dimensions in the encoded
model, so that every other byte stays as it was, fields that the schema does not know included, and
accepts the patch only if it decodes to what the edit gives.
-/

namespace QuantClassifier.Onnx

open Wire (Bytes)

/-- The two ends of a graph whose batch dimension is set. -/
inductive Slot where
  | input
  | output
  deriving DecidableEq, Repr

namespace Slot

/-- The number of the graph field that lists the slot's values. -/
def field : Slot → Nat
  | input => 11
  | output => 12

/-- The slot's name in messages. -/
def name : Slot → String
  | input => "input"
  | output => "output"

/-- The path from a model to the first dimension of the slot's first value. -/
def dimensionPath (s : Slot) : List Nat := [7, s.field, 2, 1, 2, 1]

end Slot

/-- What a model lacks to have its batch dimension set. The last cause is one of an encoding: the
first message of some repeated field on the way holds no next one. -/
inductive Missing where
  | graph
  | value (slot : Slot)
  | shape (slot : Slot) (name : Bytes)
  | dimension (slot : Slot)
  deriving DecidableEq

/-- Why a model was not pinned. -/
inductive PinError where
  | undecodable
  | missing (what : Missing)
  | malformed (e : Wire.Error)
  | unexpected

/-- A dimension set to a number: the symbol, if it had one, goes. -/
def setDimension (batch : Int) (dimension : Message) : Message :=
  dimension.set 1 (.choice [2]) (.int batch)

/-- The number of dimensions of a value with a tensor shape. -/
def rank? (value : Message) : Option Nat := do
  let shape ← (← (← value.child? 2).child? 1).child? 2
  return (shape.children 1).length

/-- Sets the first dimension of a value with one. -/
def setFirstDimension (batch : Int) (value : Message) : Message :=
  value.modifyChild 2 fun type => type.modifyChild 1 fun tensor => tensor.modifyChild 2 fun shape =>
    shape.modifyChild 1 (setDimension batch)

/-- Sets the batch dimension at one slot of a graph. -/
def setSlot (batch : Int) (graph : Message) (slot : Slot) : Except Missing Message :=
  match graph.child? slot.field with
  | none => .error (.value slot)
  | some value =>
    match rank? value with
    | some (_ + 1) => .ok (graph.modifyChild slot.field (setFirstDimension batch))
    | _ => .error (.shape slot (value.bytesOf 1))

/-- The model as `setBatch` leaves it, and what it lacks if the edit stopped. The input is edited
before the output is looked at. -/
def editBatch (batch : Int) (model : Message) : Message × Option Missing :=
  match model.child? 7 with
  | none => (model, some .graph)
  | some graph =>
    match setSlot batch graph .input with
    | .error e => (model, some e)
    | .ok graph' =>
      let model' := model.modifyChild 7 fun _ => graph'
      match setSlot batch graph' .output with
      | .error e => (model', some e)
      | .ok graph'' => (model'.modifyChild 7 fun _ => graph'', none)

/-- Sets the batch dimension of a decoded model. -/
def setBatch (batch : Int) (model : Message) : Except Missing Message :=
  match editBatch batch model with
  | (model', none) => .ok model'
  | (_, some e) => .error e

/-- An encoded dimension with its value replaced. Its other fields keep their bytes and order. -/
def pinDimension (batch : Int) (dimension : Bytes) : Except Wire.Error Bytes := do
  let records ← Wire.Record.readAll dimension
  let kept := records.filter fun r => r.number ≠ 1 && r.number ≠ 2
  return Wire.Record.writeAll (.plain 1 .varint (encodeInt batch) :: kept)

/-- Patches the batch dimension at one slot of an encoded model. -/
def pinSlot (batch : Int) (slot : Slot) (bytes : Bytes) : Except PinError Bytes :=
  match Wire.update (pinDimension batch) slot.dimensionPath bytes with
  | .error (.malformed e) => .error (.malformed e)
  | .error (.leaf e) => .error (.malformed e)
  | .ok none => .error (.missing (.dimension slot))
  | .ok (some patched) => .ok patched

/-- Sets the batch dimension of an encoded model. -/
def pinBatch (batch : Int) (bytes : Bytes) : Except PinError Bytes := do
  let some model := decode? .model bytes | throw .undecodable
  let expected ← (setBatch batch model).mapError .missing
  let patched ← pinSlot batch .output (← pinSlot batch .input bytes)
  let some actual := decode? .model patched | throw .undecodable
  if actual.agrees expected then return patched else throw .unexpected

end QuantClassifier.Onnx
