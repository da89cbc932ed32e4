import QuantClassifier.Proofs.Quantization.Slots

/-!
# Tensors that carry their parameters

What a slot stores says in its type how it is read back. The scale is carried in single precision,
so nothing of the parameters is lost if that holds the scale (`carried?_quantized`). Then a tensor
that is stored is read back by what it carries as by the parameters it was stored by, and its type
tells these parameters and the slot. A tensor that was taken as it is carries nothing, and is read
back as it is by either (`dequantizeOwn_of_quantize`).
-/

namespace QuantClassifier

variable {p : QuantParams} {slot : SlotType} {s : Single}

/-- The type of what a slot stores tells the slot. -/
theorem SlotType.ofDatumType_quantized (slot : SlotType) (p : QuantParams) :
    ofDatumType (slot.quantized p) = .ok slot :=
  ofDatumType_eq_ok_iff.2 (unquantized_quantized slot p)

/-- Parameters whose scale single precision holds are carried as they are. -/
theorem QuantParams.carried?_quantized (hs : s.isNaN = false) (hscale : p.scale = s.toDouble)
    (hslot : slot ≠ .f32) : carried? (slot.quantized p) = some p := by
  have hback : p.scale.toSingle.toDouble = p.scale := by
    rw [hscale, Binary.toSingle_toDouble hs]
  have hcarried : some (⟨p.scale.toSingle.toDouble, p.zeroPoint⟩ : QuantParams) = some p := by
    rw [hback]
  cases slot with
  | f32 => exact absurd rfl hslot
  | u8 | i8 => exact hcarried

namespace Tensor

variable {t v : Tensor} {xs : List Single} {qs : List Int}

theorem length_data_of_floats? (h : t.floats? = some xs) : t.data.length = xs.length := by
  obtain ⟨dtype, shape, data, hdata⟩ := t
  cases dtype <;> cases h
  rfl

theorem length_data_of_integers? (h : t.integers? = some qs) : t.data.length = qs.length := by
  obtain ⟨dtype, shape, data, hdata⟩ := t
  cases dtype <;> cases h <;> rfl

/-- What carries parameters is read back by them. -/
theorem dequantizeOwn_of_carried? (h : QuantParams.carried? v.dtype = some p) :
    v.dequantizeOwn = v.dequantize p := by
  rw [dequantizeOwn, h, Option.getD_some]

/-- A float tensor can be stored by all parameters whose scale is a number of single precision, a
zero or an infinity too. What is stored has its shape and as many elements, and is read back by the
parameters that it carries as by the given ones. If they say that the slot is quantized, the type of
what is stored gives back the parameters and the slot. -/
theorem dequantizeOwn_of_quantize (slot : SlotType) (ht : t.dtype = .f32) (hs : s.isNaN = false)
    (hscale : p.scale = s.toDouble) :
    ∃ v r, t.quantize p slot = .ok v ∧ v.shape = t.shape ∧ v.data.length = t.data.length ∧
      v.dequantizeOwn = .ok r ∧ v.dequantize p = .ok r ∧ r.shape = t.shape ∧
      (p.isUnquantized = false → slot ≠ .f32 →
        QuantParams.ofDatumType v.dtype = p ∧ SlotType.ofDatumType v.dtype = .ok slot) := by
  by_cases hpasses : p.isUnquantized = true ∨ slot = .f32
  · refine ⟨t, t, quantize_of_passes ht hpasses, rfl, rfl, dequantize_of_floats? _ ht,
      dequantize_of_floats? p ht, rfl, ?_⟩
    intro hquantized hslot
    rcases hpasses with hzero | hfloats
    · rw [hquantized] at hzero
      cases hzero
    · exact absurd hfloats hslot
  · obtain ⟨hquantized, hslot⟩ := not_or.1 hpasses
    obtain ⟨lo, hi, hrange⟩ := SlotType.exists_range? hslot
    obtain ⟨xs, hxs⟩ := exists_floats?_iff.2 ht
    obtain ⟨v, hv, hstored⟩ := quantize_of_range? hxs (eq_false_of_ne_true hquantized) hrange
    obtain ⟨r, hr, hshape, -⟩ := dequantize_of_integers? p hstored.integers
    have hcarried : QuantParams.carried? v.dtype = some p := by
      rw [hstored.dtype, QuantParams.carried?_quantized hs hscale hslot]
    refine ⟨v, r, hv, hstored.shape, ?_, (dequantizeOwn_of_carried? hcarried).trans hr, hr,
      hshape.trans hstored.shape, fun _ _ => ⟨?_, ?_⟩⟩
    · rw [length_data_of_integers? hstored.integers, List.length_map, length_data_of_floats? hxs]
    · rw [QuantParams.ofDatumType, hcarried, Option.getD_some]
    · rw [hstored.dtype, SlotType.ofDatumType_quantized]

/-- Parameters with an infinite scale. -/
def endlessSteps : QuantParams := ⟨(Binary.infinity true : Single).toDouble, 3⟩

/-- A row of a half and a NaN. -/
def halfNaN : Tensor := ⟨.f32, [1, 2], [Binary.ofScaled 1 (-1), Binary.nan false], rfl⟩

/-- With an infinite scale both are read back from bytes that carry that scale. -/
theorem dequantizeOwn_of_quantize_endlessSteps :
    ∃ v r, halfNaN.quantize endlessSteps .u8 = .ok v ∧ v.integers? = some [3, 0] ∧
      v.dequantizeOwn = .ok r ∧ v.dequantize endlessSteps = .ok r ∧
      QuantParams.ofDatumType v.dtype = endlessSteps ∧ SlotType.ofDatumType v.dtype = .ok .u8 := by
  have hquantized : endlessSteps.isUnquantized = false := by decide +kernel
  obtain ⟨v, r, hv, -, -, hown, hread, -, hcarried⟩ :=
    dequantizeOwn_of_quantize (s := .infinity true) .u8 (rfl : halfNaN.dtype = .f32) (by decide)
      (rfl : endlessSteps.scale = _)
  obtain ⟨hparams, hslot⟩ := hcarried hquantized (by decide)
  obtain ⟨w, hw, hstored⟩ := quantize_of_range? (rfl : halfNaN.floats? = some _) hquantized
    (rfl : SlotType.u8.range? = some (0, 255))
  cases hw.symm.trans hv
  refine ⟨v, r, hv, ?_, hown, hread, hparams, hslot⟩
  have hvalues : [Binary.ofScaled 1 (-1), Binary.nan false].map (endlessSteps.quantize 0 255) =
      [3, 0] := by decide +kernel
  rw [hstored.integers, hvalues]

end Tensor

end QuantClassifier
