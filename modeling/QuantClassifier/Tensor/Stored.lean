import QuantClassifier.Binary.LittleEndian
import QuantClassifier.Tensor.Basic

/-!
# Stored tensors

Files hold the elements of a tensor as words of a width that the type decides, one after the other.
-/

namespace QuantClassifier

namespace DatumType

/-- The number of bytes of an element, if all elements have the same. -/
def width? : DatumType → Option Nat
  | bool | u8 | i8 | quantized .u8 _ | quantized .i8 _ => some 1
  | u16 | i16 | f16 => some 2
  | u32 | i32 | f32 | quantized .i32 _ => some 4
  | u64 | i64 | f64 => some 8
  | dimension | string | blob => none

/-- The element that a word stands for. Floats of other than single precision are held by their
bits. -/
def ofWord : (t : DatumType) → Nat → t.Element
  | f32, n => (Binary.ofBits n : Single)
  | i8, n | quantized .i8 _, n => Int.bmod n 256
  | i16, n => Int.bmod n 65536
  | i32, n | quantized .i32 _, n => Int.bmod n 0x100000000
  | i64, n => Int.bmod n 0x10000000000000000
  | bool, n | u8, n | u16, n | u32, n | u64, n | f16, n | f64, n | dimension, n | string, n
  | blob, n | quantized .u8 _, n => (n : Int)

end DatumType

/-- The tensor whose elements some bytes store, if there are as many as the shape has places. -/
def Tensor.ofBytes? (dtype : DatumType) (shape : Shape) (bytes : List UInt8) : Option Tensor := do
  let words ← LittleEndian.numbers? (← dtype.width?) bytes
  ofList? dtype shape (words.map dtype.ofWord)

end QuantClassifier
