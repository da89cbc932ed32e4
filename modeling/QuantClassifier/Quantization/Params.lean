import QuantClassifier.Failure

/-!
# Quantization parameters

A real number `x` is stored as `x / scale + zeroPoint`, rounded. A scale of zero marks a slot that
is not quantized at all.
-/

namespace QuantClassifier

/-- The affine map between real and stored values. -/
structure QuantParams where
  scale : Double
  zeroPoint : Int
  deriving DecidableEq

/-- The storage types of the slots that can be fed. -/
inductive SlotType where
  | f32
  | u8
  | i8
  deriving DecidableEq, Repr

namespace QuantParams

/-- The parameters of a slot that is not quantized. -/
def unquantized : QuantParams := ⟨.zero false, 0⟩

/-- The parameters that leave stored values as they are. -/
def identity : QuantParams := ⟨Binary.ofNat 1, 0⟩

/-- The scale is one of the two zeros. -/
def isUnquantized (p : QuantParams) : Bool := p.scale.isZero

/-- The parameters that a datum type carries, if it is quantized. -/
def carried? : DatumType → Option QuantParams
  | .quantized _ z => some ⟨z.scale.toDouble, z.zeroPoint⟩
  | _ => none

/-- The parameters of a datum type; plain types count as not quantized. -/
def ofDatumType (t : DatumType) : QuantParams := (carried? t).getD unquantized

/-- The wording of parameters. -/
def text (p : QuantParams) : String :=
  if p.isUnquantized then "unquantized"
  else s!"scale: {Decimal.text Decimal.plain p.scale} zero_point: {p.zeroPoint}"

end QuantParams

namespace SlotType

/-- The plain datum type of a slot. -/
def datumType : SlotType → DatumType
  | f32 => .f32
  | u8 => .u8
  | i8 => .i8

/-- The slot that stores a datum type. -/
def ofDatumType (t : DatumType) : Except Failure SlotType :=
  match t.unquantized with
  | .f32 => .ok f32
  | .u8 => .ok u8
  | .i8 => .ok i8
  | _ => .error (.ofKind (.unsupportedDatumType t))

/-- The least and the greatest stored value. -/
def range? : SlotType → Option (Int × Int)
  | f32 => none
  | u8 => some (0, 255)
  | i8 => some (-128, 127)

/-- The name of a slot type. -/
def text : SlotType → String
  | f32 => "f32"
  | u8 => "u8"
  | i8 => "i8"

/-- The datum type of a slot that carries parameters. Its scale has single precision. -/
def quantized (s : SlotType) (p : QuantParams) : DatumType :=
  match s with
  | f32 => .f32
  | u8 => .quantized .u8 (.affine p.zeroPoint p.scale.toSingle)
  | i8 => .quantized .i8 (.affine p.zeroPoint p.scale.toSingle)

end SlotType

end QuantClassifier
