import QuantClassifier.Binary.Integer
import QuantClassifier.Decimal.Style

/-!
# Datum types

What the elements of a tensor are. A quantized type stores whole numbers and says which real numbers
they stand for, by a zero point and a scale or by the range that the stored values cover.
-/

namespace QuantClassifier

/-- The whole numbers that a quantized type stores. -/
inductive Storage where
  | u8
  | i8
  | i32
  deriving DecidableEq, Repr

/-- How stored whole numbers stand for real ones. -/
inductive Quantization where
  /-- The 256 stored values spread over a range. -/
  | range (least greatest : Single)
  /-- A stored value is the real one over the scale, moved to the zero point. -/
  | affine (zeroPoint : Int) (scale : Single)
  deriving DecidableEq

namespace Quantization

/-- The distance of the real values of two neighbours. -/
def scale : Quantization → Single
  | range least greatest => (greatest - least) / Binary.ofNat 255
  | affine _ scale => scale

/-- The stored value of zero. For a range it follows from the middle and saturates. -/
def zeroPoint : Quantization → Int
  | range least greatest =>
    let middle := (-(least + greatest)) / Binary.ofNat 2
    (middle / (range least greatest).scale).truncate (-0x80000000) 0x7FFFFFFF
  | affine zeroPoint _ => zeroPoint

/-- Two quantizations are given in the same form by equal numbers; a NaN equals nothing. -/
def agrees : Quantization → Quantization → Bool
  | range least greatest, range least' greatest' => least.eqv least' && greatest.eqv greatest'
  | affine zeroPoint scale, affine zeroPoint' scale' => zeroPoint = zeroPoint' && scale.eqv scale'
  | _, _ => false

/-- The real value of a stored one in single precision. The distance to the zero point is a 32 bit
word. -/
def restore (z : Quantization) (q : Int) : Single :=
  Binary.ofInt (Int.bmod (q - z.zeroPoint) 0x100000000) * z.scale

end Quantization

/-- The type of the elements of a tensor. -/
inductive DatumType where
  | bool
  | u8
  | u16
  | u32
  | u64
  | i8
  | i16
  | i32
  | i64
  | f16
  | f32
  | f64
  | dimension
  | string
  | blob
  | quantized (storage : Storage) (quantization : Quantization)
  deriving DecidableEq

namespace Storage

/-- The type that stores the same numbers without a meaning. -/
def plain : Storage → DatumType
  | u8 => .u8
  | i8 => .i8
  | i32 => .i32

/-- The name of the quantized type in messages. -/
def name : Storage → String
  | u8 => "QU8"
  | i8 => "QI8"
  | i32 => "QI32"

end Storage

namespace DatumType

/-- The type without its quantization. -/
def unquantized : DatumType → DatumType
  | quantized s _ => s.plain
  | t => t

/-- The name of a type in messages. -/
def text : DatumType → String
  | bool => "Bool"
  | u8 => "U8"
  | u16 => "U16"
  | u32 => "U32"
  | u64 => "U64"
  | i8 => "I8"
  | i16 => "I16"
  | i32 => "I32"
  | i64 => "I64"
  | f16 => "F16"
  | f32 => "F32"
  | f64 => "F64"
  | dimension => "TDim"
  | string => "String"
  | blob => "Blob"
  | quantized s z => s!"{s.name}(Z:{z.zeroPoint} S:{Decimal.text Decimal.plain z.scale})"

/-- A value of one type goes where the other is expected. -/
def agrees : DatumType → DatumType → Bool
  | quantized s z, quantized s' z' => s = s' && z.agrees z'
  | t, t' => t = t'

/-- How an element is held: single precision floats as such, all other types as whole numbers. -/
abbrev Element : DatumType → Type
  | f32 => Single
  | _ => Int

/-- Two elements are equal, floats as numbers. -/
def elementAgrees : (t : DatumType) → t.Element → t.Element → Bool
  | f32 => fun (x y : Single) => x.eqv y
  | bool | u8 | u16 | u32 | u64 | i8 | i16 | i32 | i64 | f16 | f64 | dimension | string | blob
  | quantized _ _ => fun (n m : Int) => n = m

end DatumType

end QuantClassifier
