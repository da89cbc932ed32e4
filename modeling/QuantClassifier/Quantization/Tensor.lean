import QuantClassifier.Quantization.Affine

/-!
# Quantizing tensors

A float tensor becomes the stored values of a slot, under a datum type that carries the parameters;
stored values become floats again, by given parameters or by those that they carry.
-/

namespace QuantClassifier.Tensor

/-- The stored values of floats under a quantized datum type. -/
def store (p : QuantParams) (s : Storage) (lo hi : Int) (shape : Shape) (data : List Single)
    (h : data.length = shape.product) : Tensor :=
  ⟨.quantized s (.affine p.zeroPoint p.scale.toSingle), shape, data.map (p.quantize lo hi),
    (List.length_map ..).symm ▸ h⟩

/-- A float tensor as a slot stores it. A slot without quantization or of floats takes it as it is.
-/
def quantize (t : Tensor) (p : QuantParams) (slot : SlotType) : Except Failure Tensor :=
  match t with
  | ⟨.f32, shape, data, h⟩ =>
    if p.isUnquantized then .ok t
    else
      match slot with
      | .f32 => .ok t
      | .u8 => .ok (store p .u8 0 255 shape data h)
      | .i8 => .ok (store p .i8 (-128) 127 shape data h)
  | _ => .error (.ofKind (.unsupportedDatumType t.dtype))

/-- The real values of stored ones. -/
def restore (p : QuantParams) (shape : Shape) (data : List Int)
    (h : data.length = shape.product) : Tensor :=
  ⟨.f32, shape, data.map p.dequantize, (List.length_map ..).symm ▸ h⟩

/-- The real values of a tensor. Floats pass through. -/
def dequantize (t : Tensor) (p : QuantParams) : Except Failure Tensor :=
  match t with
  | ⟨.f32, _, _, _⟩ => .ok t
  | ⟨.u8, shape, data, h⟩ => .ok (restore p shape data h)
  | ⟨.i8, shape, data, h⟩ => .ok (restore p shape data h)
  | ⟨.i32, shape, data, h⟩ => .ok (restore p shape data h)
  | ⟨.quantized _ _, shape, data, h⟩ => .ok (restore p shape data h)
  | _ => .error (.ofKind (.unsupportedDatumType t.dtype))

/-- The real values of a tensor by the parameters that it carries; plain numbers are as they are. -/
def dequantizeOwn (t : Tensor) : Except Failure Tensor :=
  t.dequantize ((QuantParams.carried? t.dtype).getD .identity)

end QuantClassifier.Tensor
