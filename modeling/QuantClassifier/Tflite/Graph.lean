import QuantClassifier.Model.Basic
import QuantClassifier.Tensor.Stored
import QuantClassifier.Tflite.Schema

/-!
# TFLite models

The first subgraph of a model file as a model. Its inputs are tensors with a name, a shape, a type
and perhaps a quantization and a value. A tensor that is not quantized alike in all its parts is no
input. There are no operators, so each output is one of the inputs.
-/

namespace QuantClassifier.Tflite

/-- The type with a number. -/
def elementType? : Nat → Option DatumType
  | 0 => some .f32
  | 1 => some .f16
  | 2 => some .i32
  | 3 => some .u8
  | 4 => some .i64
  | 5 => some .string
  | 6 => some .bool
  | 7 => some .i16
  | 9 => some .i8
  | 10 => some .f64
  | 12 => some .u64
  | 13 => some .blob
  | 14 => some .blob
  | 15 => some .u32
  | 16 => some .u16
  | _ => none

/-- The quantized storage of a type. -/
def storage? : DatumType → Option Storage
  | .u8 => some .u8
  | .i8 => some .i8
  | .i32 => some .i32
  | _ => none

/-- The scale and the zero point that a tensor gives, if it gives both. The zero point is a word of
32 bits. -/
def quantization? (tensor : Flat.Table) : Option (List Nat × List Nat) := do
  let table ← tensor.table? 4
  return (← table.scalars? 2, ← table.scalars? 3)

/-- All parts of a tensor are quantized alike. -/
def isQuantizedAlike (tensor : Flat.Table) : Bool :=
  match quantization? tensor with
  | some (scale :: scales, zeroPoint :: zeroPoints) =>
    scales.all (fun s => (Binary.ofBits scale : Single).eqv (Binary.ofBits s)) &&
      zeroPoints.all (· = zeroPoint)
  | _ => true

/-- The type of the elements of a tensor. -/
def datumType? (tensor : Flat.Table) : Option DatumType := do
  let plain ← elementType? (tensor.scalar 1)
  match quantization? tensor with
  | none => return plain
  | some (scales, zeroPoints) =>
    let zeroPoint := Int.bmod (← zeroPoints.head?) 0x100000000
    return .quantized (← storage? plain) (.affine zeroPoint (Binary.ofBits (← scales.head?)))

/-- The length of an axis. -/
def length? (n : Nat) : Option Nat := if n < 0x80000000 then some n else none

/-- The value of a tensor, if it has one. It is held in one of the buffers of the model, the first
of which stands for no value. -/
def initial? (model tensor : Flat.Table) (dtype : DatumType) (shape : Shape) :
    Option (Option Tensor) :=
  if tensor.scalar 2 = 0 then some none
  else do
    let buffer ← (← model.tables? 4)[tensor.scalar 2]?
    match buffer.scalars? 0 with
    | none => return none
    | some bytes => return some (← Tensor.ofBytes? dtype shape (bytes.map UInt8.ofNat))

/-- The input that a tensor is. -/
def input? (model tensor : Flat.Table) : Option ModelInput := do
  let dtype ← datumType? tensor
  let shape ← (← tensor.scalars? 0).mapM length?
  return {
    name := tensor.text 3
    fact := { dtype, shape := shape.map .fixed }
    initial := ← initial? model tensor dtype shape }

/-- The input that an output passes on, if the inputs have some numbers. -/
def output? (inputs : List Nat) (count number : Nat) : Option (Output count) := do
  let i ← inputs.idxOf? number
  if h : i < count then some (.input ⟨i, h⟩) else none

/-- The first subgraph as a model. -/
def graph? (model : Flat.Table) : Option Model := do
  let subgraph ← (← model.tables? 2).head?
  let tensors ← subgraph.tables? 0
  let numbered ← (← subgraph.scalars? 1).mapM fun n => do return (n, ← tensors[n]?)
  let numbered := numbered.filter fun (_, tensor) => isQuantizedAlike tensor
  let inputs ← numbered.mapM fun (_, tensor) => input? model tensor
  guard ((← subgraph.tables? 3).isEmpty)
  let output := output? (numbered.map (·.1)) inputs.length
  return ⟨inputs, ← (← subgraph.scalars? 2).mapM output⟩

/-- The model in a file. -/
def model? (bytes : List UInt8) : Option Model := do graph? (← Flat.read? schema .model bytes)

end QuantClassifier.Tflite
