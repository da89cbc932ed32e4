import QuantClassifier.Proofs.Binary.Exactness
import QuantClassifier.Quantization.Tensor

/-!
# What slots store

A slot takes its storage type and its parameters from one datum type. A slot of floats stores floats
as they are, a slot with a scale stores whole numbers of its range, and a slot of whole numbers
without a scale is given floats as they are (`quantize_ofDatumType`). Where the type says what its
elements stand for, each float that is stored and read back has become its score in the slot,
whatever the others are (`exists_dequantize_quantize`).
-/

namespace QuantClassifier

namespace DatumType

/-- The elements stand for real numbers: they are floats, or they are quantized by a scale other
than zero. -/
def isReal : DatumType → Bool
  | f32 => true
  | quantized _ z => !z.scale.isZero
  | _ => false

/-- The elements are floats, or have a zero point and a scale that is a number other than zero. -/
def isScaled : DatumType → Bool
  | f32 => true
  | quantized _ (.affine _ scale) => !scale.isNaN && !scale.isZero
  | _ => false

theorem isReal_of_isScaled {t : DatumType} (h : t.isScaled = true) : t.isReal = true := by
  cases t with
  | f32 => rfl
  | quantized s z =>
    cases z with
    | affine zeroPoint scale =>
      simp only [isScaled, Bool.and_eq_true] at h
      exact h.2
    | range least greatest => cases h
  | _ => cases h

theorem agrees_self_of_isScaled {t : DatumType} (h : t.isScaled = true) :
    t.agrees t = true := by
  cases t with
  | f32 => rfl
  | quantized s z =>
    cases z with
    | affine zeroPoint scale =>
      simp only [isScaled, Bool.and_eq_true, Bool.not_eq_true'] at h
      simp [agrees, Quantization.agrees, Binary.eqv, h.1]
    | range least greatest => cases h
  | _ => cases h

theorem eq_f32_of_unquantized {t : DatumType} (h : t.unquantized = .f32) : t = .f32 := by
  cases t with
  | quantized s z => cases s <;> cases h
  | _ => exact h

end DatumType

namespace SlotType

variable {s : SlotType} {t : DatumType} {p : QuantParams} {lo hi : Int}

theorem ofDatumType_eq_ok_iff : ofDatumType t = .ok s ↔ t.unquantized = s.datumType := by
  unfold ofDatumType
  split
  next h => cases s <;> simp [h, datumType]
  next h => cases s <;> simp [h, datumType]
  next h => cases s <;> simp [h, datumType]
  next hf hu hi =>
    constructor
    · intro h
      cases h
    · cases s
      · exact fun h => (hf h).elim
      · exact fun h => (hu h).elim
      · exact fun h => (hi h).elim

/-- What becomes of a real value that is stored in a slot and read back. -/
def score (s : SlotType) (p : QuantParams) (x : Single) : Single :=
  match s.range? with
  | none => x
  | some (lo, hi) => p.dequantize (p.quantize lo hi x)

@[simp] theorem score_f32 (p : QuantParams) (x : Single) : f32.score p x = x := rfl

theorem score_of_range? (h : s.range? = some (lo, hi)) (p : QuantParams) (x : Single) :
    s.score p x = p.dequantize (p.quantize lo hi x) := by
  rw [score, h]

/-- Every slot but that of floats has a range. -/
theorem exists_range? (h : s ≠ .f32) : ∃ lo hi, s.range? = some (lo, hi) := by
  cases s with
  | f32 => exact absurd rfl h
  | u8 => exact ⟨0, 255, rfl⟩
  | i8 => exact ⟨-128, 127, rfl⟩

/-- The range of a slot goes from below zero to above it. -/
theorem range_zero (h : s.range? = some (lo, hi)) : lo ≤ 0 ∧ 0 ≤ hi := by
  cases s with
  | f32 => cases h
  | u8 | i8 =>
    cases h
    decide

/-- The stored value of a slot is one of its range. -/
theorem quantize_mem_range (h : s.range? = some (lo, hi)) (p : QuantParams) (x : Single) :
    lo ≤ p.quantize lo hi x ∧ p.quantize lo hi x ≤ hi :=
  Binary.saturate_le _ _ (range_zero h).1 (range_zero h).2

theorem unquantized_quantized (s : SlotType) (p : QuantParams) :
    (s.quantized p).unquantized = s.datumType := by
  cases s <;> rfl

end SlotType

namespace QuantParams

variable {t : DatumType} {s : SlotType}

/-- The parameters of a type say that it is not quantized unless it has a scale other than zero. -/
theorem isUnquantized_ofDatumType_iff :
    (ofDatumType t).isUnquantized = true ↔ t.isReal = false ∨ t = .f32 := by
  have hplain : unquantized.isUnquantized = true := rfl
  cases t <;> simp [ofDatumType, carried?, DatumType.isReal, hplain]
  next z => simp [isUnquantized]

/-- A slot stores floats, or whole numbers with a scale, or is given whole numbers without one. -/
theorem cases_of_ofDatumType (h : SlotType.ofDatumType t = .ok s) :
    t = .f32 ∧ s = .f32 ∨
      t.isReal = true ∧ (ofDatumType t).isUnquantized = false ∧
        (∃ lo hi, s.range? = some (lo, hi)) ∨
      t.isReal = false ∧ (ofDatumType t).isUnquantized = true ∧ s ≠ .f32 := by
  rw [SlotType.ofDatumType_eq_ok_iff] at h
  have hiff := isUnquantized_ofDatumType_iff (t := t)
  by_cases hf : t = .f32
  · subst hf
    cases s <;> simp [DatumType.unquantized, SlotType.datumType] at h ⊢
  · have hs : s ≠ .f32 := by
      rintro rfl
      exact hf (DatumType.eq_f32_of_unquantized h)
    have hrange := SlotType.exists_range? hs
    cases hreal : t.isReal with
    | true =>
      refine Or.inr (Or.inl ⟨rfl, ?_, hrange⟩)
      simpa [hreal, hf] using hiff
    | false =>
      refine Or.inr (Or.inr ⟨rfl, ?_, hs⟩)
      exact hiff.2 (Or.inl hreal)

/-- The parameters of a type with a zero point and a scale make that type again. -/
theorem quantized_ofDatumType (h : SlotType.ofDatumType t = .ok s) (ht : t.isScaled = true) :
    s.quantized (ofDatumType t) = t := by
  rw [SlotType.ofDatumType_eq_ok_iff] at h
  cases t with
  | f32 => cases s <;> first | rfl | cases h
  | quantized storage z =>
    cases z with
    | affine zeroPoint scale =>
      simp only [DatumType.isScaled, Bool.and_eq_true, Bool.not_eq_true'] at ht
      have hback : scale.toDouble.toSingle = scale := Binary.toSingle_toDouble ht.1
      cases storage <;> cases s <;> cases h <;>
        simp [SlotType.quantized, ofDatumType, carried?, Quantization.scale,
          Quantization.zeroPoint, hback]
    | range least greatest => cases ht
  | _ => cases ht

end QuantParams

namespace Tensor

/-- The whole numbers of a tensor that a scale and a zero point make real. -/
def integers? : Tensor → Option (List Int)
  | ⟨.u8, _, data, _⟩ => some data
  | ⟨.i8, _, data, _⟩ => some data
  | ⟨.i32, _, data, _⟩ => some data
  | ⟨.quantized _ _, _, data, _⟩ => some data
  | _ => none

variable {t v : Tensor} {p : QuantParams} {s : SlotType} {lo hi : Int} {xs : List Single}
  {qs : List Int}

theorem exists_floats?_iff : (∃ xs, t.floats? = some xs) ↔ t.dtype = .f32 := by
  obtain ⟨dtype, shape, data, h⟩ := t
  cases dtype <;> simp [floats?]

theorem dtype_of_floats? (h : t.floats? = some xs) : t.dtype = .f32 :=
  exists_floats?_iff.1 ⟨xs, h⟩

/-! ## Storing -/

theorem quantize_of_ne (p : QuantParams) (s : SlotType) (h : t.dtype ≠ .f32) :
    t.quantize p s = .error (.ofKind (.unsupportedDatumType t.dtype)) := by
  obtain ⟨dtype, shape, data, hdata⟩ := t
  cases dtype <;> first | rfl | exact absurd rfl h

theorem exists_quantize_iff : (∃ v, t.quantize p s = .ok v) ↔ t.dtype = .f32 := by
  constructor
  · rintro ⟨v, hv⟩
    refine Decidable.byContradiction fun h => ?_
    rw [quantize_of_ne p s h] at hv
    cases hv
  · obtain ⟨dtype, shape, data, hdata⟩ := t
    rintro rfl
    cases hp : p.isUnquantized <;> cases s <;> simp [quantize, hp]

/-- Without parameters, and in a slot of floats, a float tensor is stored as it is. -/
theorem quantize_of_passes (ht : t.dtype = .f32) (h : p.isUnquantized = true ∨ s = .f32) :
    t.quantize p s = .ok t := by
  obtain ⟨dtype, shape, data, hdata⟩ := t
  subst ht
  rcases h with h | rfl
  · exact if_pos h
  · simp [quantize]

/-- A tensor holds what a slot with a range stores of some floats. -/
structure StoresIn (v : Tensor) (s : SlotType) (p : QuantParams) (lo hi : Int) (shape : Shape)
    (xs : List Single) : Prop where
  dtype : v.dtype = s.quantized p
  shape : v.shape = shape
  integers : v.integers? = some (xs.map (p.quantize lo hi))

theorem quantize_of_range? (h : t.floats? = some xs) (hp : p.isUnquantized = false)
    (hs : s.range? = some (lo, hi)) :
    ∃ v, t.quantize p s = .ok v ∧ v.StoresIn s p lo hi t.shape xs := by
  obtain ⟨dtype, shape, data, hdata⟩ := t
  obtain rfl : dtype = .f32 := dtype_of_floats? h
  cases h
  cases s with
  | f32 => cases hs
  | u8 =>
    cases hs
    exact ⟨store p .u8 0 255 shape xs hdata, by simp [quantize, hp], ⟨rfl, rfl, rfl⟩⟩
  | i8 =>
    cases hs
    exact ⟨store p .i8 (-128) 127 shape xs hdata, by simp [quantize, hp], ⟨rfl, rfl, rfl⟩⟩

/-- A tensor holds values of a slot: it has the type that the slot stores, and whole numbers are of
the range of the slot. -/
structure IsStoredIn (v : Tensor) (s : SlotType) : Prop where
  storage : v.dtype.unquantized = s.datumType
  range : ∀ {lo hi}, s.range? = some (lo, hi) →
    ∃ qs, v.integers? = some qs ∧ ∀ q ∈ qs, lo ≤ q ∧ q ≤ hi

theorem StoresIn.isStoredIn {shape : Shape} (h : v.StoresIn s p lo hi shape xs)
    (hs : s.range? = some (lo, hi)) : v.IsStoredIn s where
  storage := by rw [h.dtype, SlotType.unquantized_quantized]
  range hrange := by
    cases hs.symm.trans hrange
    refine ⟨_, h.integers, ?_⟩
    intro q hq
    obtain ⟨x, -, rfl⟩ := List.mem_map.1 hq
    exact SlotType.quantize_mem_range hs p x

/-- Floats are values of no slot but that of floats. -/
theorem isStoredIn_iff_of_float (h : v.dtype = .f32) : v.IsStoredIn s ↔ s = .f32 := by
  constructor
  · intro hv
    have hstorage := hv.storage
    rw [h] at hstorage
    cases s with
    | f32 => rfl
    | u8 => cases hstorage
    | i8 => cases hstorage
  · rintro rfl
    refine ⟨by rw [h]; rfl, ?_⟩
    intro lo hi hrange
    cases hrange

/-- What is stored by the parameters and the slot of a type are values of the slot if the type says
what its elements stand for, and else the floats as they are. -/
theorem quantize_ofDatumType {dt : DatumType} (hslot : SlotType.ofDatumType dt = .ok s)
    (h : t.quantize (.ofDatumType dt) s = .ok v) :
    v.shape = t.shape ∧ (v.IsStoredIn s ↔ dt.isReal = true) ∧ (dt.isReal = false → v = t) := by
  have ht : t.dtype = .f32 := exists_quantize_iff.1 ⟨v, h⟩
  rcases QuantParams.cases_of_ofDatumType hslot with
    ⟨rfl, rfl⟩ | ⟨hreal, hp, lo, hi, hrange⟩ | ⟨hreal, hp, hs⟩
  · rw [quantize_of_passes ht (Or.inr rfl)] at h
    cases h
    simp [isStoredIn_iff_of_float ht, DatumType.isReal]
  · obtain ⟨xs, hxs⟩ := exists_floats?_iff.2 ht
    obtain ⟨w, hw, hstored⟩ := quantize_of_range? hxs hp hrange
    cases hw.symm.trans h
    simp [hstored.shape, hstored.isStoredIn hrange, hreal]
  · rw [quantize_of_passes ht (Or.inl hp)] at h
    cases h
    simp [isStoredIn_iff_of_float ht, hreal, hs]

/-- What is stored by the parameters of a type with a scale goes where the type is expected. -/
theorem agrees_of_quantize {dt : DatumType} (hslot : SlotType.ofDatumType dt = .ok s)
    (hscaled : dt.isScaled = true) (h : t.quantize (.ofDatumType dt) s = .ok v) :
    dt.agrees v.dtype = true := by
  have ht : t.dtype = .f32 := exists_quantize_iff.1 ⟨v, h⟩
  suffices hv : v.dtype = dt by
    rw [hv]
    exact DatumType.agrees_self_of_isScaled hscaled
  rcases QuantParams.cases_of_ofDatumType hslot with
    ⟨rfl, rfl⟩ | ⟨-, hp, lo, hi, hrange⟩ | ⟨hreal, -, -⟩
  · rw [quantize_of_passes ht (Or.inr rfl)] at h
    cases h
    exact ht
  · obtain ⟨xs, hxs⟩ := exists_floats?_iff.2 ht
    obtain ⟨w, hw, hstored⟩ := quantize_of_range? hxs hp hrange
    cases hw.symm.trans h
    rw [hstored.dtype, QuantParams.quantized_ofDatumType hslot hscaled]
  · rw [DatumType.isReal_of_isScaled hscaled] at hreal
    cases hreal

/-! ## Reading back -/

theorem dequantize_of_floats? (p : QuantParams) (h : t.dtype = .f32) :
    t.dequantize p = .ok t := by
  obtain ⟨dtype, shape, data, hdata⟩ := t
  subst h
  rfl

theorem dequantize_of_integers? (p : QuantParams) (h : t.integers? = some qs) :
    ∃ r, t.dequantize p = .ok r ∧ r.shape = t.shape ∧ r.floats? = some (qs.map p.dequantize) := by
  obtain ⟨dtype, shape, data, hdata⟩ := t
  cases dtype <;> cases h <;> exact ⟨_, rfl, rfl, rfl⟩

/-- Stored and read back by the parameters of its slot, each value has become its score. -/
theorem exists_dequantize_quantize {dt : DatumType} (hslot : SlotType.ofDatumType dt = .ok s)
    (hreal : dt.isReal = true) (h : t.floats? = some xs) :
    ∃ v r, t.quantize (.ofDatumType dt) s = .ok v ∧ v.dequantize (.ofDatumType dt) = .ok r ∧
      r.shape = t.shape ∧ r.floats? = some (xs.map (s.score (.ofDatumType dt))) := by
  rcases QuantParams.cases_of_ofDatumType hslot with
    ⟨-, rfl⟩ | ⟨-, hp, lo, hi, hrange⟩ | ⟨hnot, -, -⟩
  · have ht := dtype_of_floats? h
    have hscore : SlotType.f32.score (.ofDatumType dt) = id := funext (SlotType.score_f32 _)
    refine ⟨t, t, quantize_of_passes ht (Or.inr rfl), dequantize_of_floats? _ ht, rfl, ?_⟩
    rw [hscore, List.map_id]
    exact h
  · obtain ⟨v, hv, hstored⟩ := quantize_of_range? h hp hrange
    obtain ⟨r, hr, hshape, hfloats⟩ := dequantize_of_integers? (.ofDatumType dt) hstored.integers
    have hscore : s.score (.ofDatumType dt) =
        (QuantParams.ofDatumType dt).dequantize ∘ (QuantParams.ofDatumType dt).quantize lo hi := by
      funext x
      rw [Function.comp_apply, SlotType.score_of_range? hrange]
    refine ⟨v, r, hv, hr, hshape.trans hstored.shape, ?_⟩
    rw [hfloats, List.map_map, hscore]
  · rw [hnot] at hreal
    cases hreal

end Tensor

end QuantClassifier
