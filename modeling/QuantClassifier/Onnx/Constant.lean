import QuantClassifier.Onnx.Message
import QuantClassifier.Tensor.Stored

/-!
# Constants of ONNX models

A constant is a message with a type, a shape and elements, which are either stored as they are or
listed in a field that the type decides.
-/

namespace QuantClassifier.Onnx

/-- The type with a number. -/
def elementType? : Int → Option DatumType
  | 1 => some .f32
  | 2 => some .u8
  | 3 => some .i8
  | 4 => some .u16
  | 5 => some .i16
  | 6 => some .i32
  | 7 => some .i64
  | 8 => some .string
  | 9 => some .bool
  | 10 => some .f16
  | 11 => some .f64
  | 12 => some .u32
  | 13 => some .u64
  | _ => none

/-- The words that list the elements of a constant. -/
def listedWords? (dtype : DatumType) (m : Message) : Option (List Nat) :=
  let integers (number : Nat) := (m.integersOf number).map fun n => (n % 0x10000000000000000).toNat
  match dtype with
  | .f32 => some ((m.floatsOf 4).map Binary.toBits)
  | .f64 => some ((m.doublesOf 10).map Binary.toBits)
  | .i64 => some (integers 7)
  | .u32 | .u64 => some (integers 11)
  | .bool | .u8 | .i8 | .u16 | .i16 | .i32 | .f16 => some (integers 5)
  | .dimension | .string | .blob | .quantized _ _ => none

/-- The length of an axis. -/
def length? (n : Int) : Option Nat := if 0 ≤ n then some n.toNat else none

/-- The tensor that a constant is. Elements in other files are not known. -/
def constant? (m : Message) : Option Tensor := do
  let dtype ← elementType? (m.intOf 2)
  let shape ← (m.integersOf 1).mapM length?
  let stored := m.bytesOf 9
  if stored.isEmpty then
    guard (m.intOf 14 ≠ 1)
    Tensor.ofList? dtype shape ((← listedWords? dtype m).map dtype.ofWord)
  else Tensor.ofBytes? dtype shape stored

end QuantClassifier.Onnx
