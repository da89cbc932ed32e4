import QuantClassifier.Classifier
import QuantClassifier.Proofs.Model.Loading

/-!
# What the runtime is given

A classifier takes float tensors of the shape of its input and nothing else
(`exists_quantizeInput_iff`). The input slot has the parameters of the type that the model declares.
If that type says what its elements stand for, the runtime is given what the slot stores; if it
stores whole numbers and does not say so, the floats reach the runtime as they are
(`quantizeInput_stores`).
-/

namespace QuantClassifier.Classifier

variable {c : Classifier} {d : Delegate} {u : UsableModel} {m : Model} {format : ModelFormat}
  {t v : Tensor}

theorem quantizeInput_of_shape_ne (h : t.shape ≠ c.input.shape) :
    c.quantizeInput t = .error (.ofKind (.shapeMismatch c.input.shape t.shape)) :=
  if_neg h

theorem quantizeInput_of_shape_eq (h : t.shape = c.input.shape) :
    c.quantizeInput t = t.quantize c.input.params c.input.slotType :=
  if_pos h

/-- Of the input's shape, a tensor that does not hold floats is refused for its type. -/
theorem quantizeInput_of_dtype_ne (hshape : t.shape = c.input.shape) (h : t.dtype ≠ .f32) :
    c.quantizeInput t = .error (.ofKind (.unsupportedDatumType t.dtype)) := by
  rw [quantizeInput_of_shape_eq hshape]
  exact Tensor.quantize_of_ne _ _ h

/-- The slot of the input is made from the type and the shape that the model declares. -/
theorem input_of_prepare (hu : UsableModel.ofModel format m = .ok u) (hc : prepare d u = .ok c) :
    ∃ first, m.inputs.head? = some first ∧ first.fact.concrete? = some c.input.shape ∧
      SlotType.ofDatumType first.fact.dtype = .ok c.input.slotType ∧
      c.input.params = .ofDatumType first.fact.dtype := by
  obtain ⟨rfl, -⟩ := toUsableModel_of_prepare hc
  obtain ⟨first, output, hfirst, -, hin, -, -, -⟩ := UsableModel.ofModel_eq_ok_iff.1 hu
  obtain ⟨hshape, htype, hparams, -⟩ := InputSlot.ofFact_eq_ok_iff.1 hin
  exact ⟨first, hfirst, hshape, htype, hparams⟩

/-- Exactly the float tensors of the input's shape are taken. -/
theorem exists_quantizeInput_iff :
    (∃ v, c.quantizeInput t = .ok v) ↔ t.shape = c.input.shape ∧ t.dtype = .f32 := by
  by_cases hshape : t.shape = c.input.shape
  · rw [quantizeInput_of_shape_eq hshape, Tensor.exists_quantize_iff]
    simp [hshape]
  · rw [quantizeInput_of_shape_ne hshape]
    simp [hshape]

/-- What the runtime of a usable model is given for floats of its input's shape: values of the input
slot exactly if the declared type is that of floats or has a scale other than zero. Whole numbers
without a scale have no real values; their slot is given the floats themselves. -/
theorem quantizeInput_stores {first : ModelInput} (hu : UsableModel.ofModel format m = .ok u)
    (hc : prepare d u = .ok c) (hfirst : m.inputs.head? = some first)
    (hshape : t.shape = c.input.shape) (hfloat : t.dtype = .f32) :
    c.input.slotType.datumType = first.fact.dtype.unquantized ∧
      ∃ v, c.quantizeInput t = .ok v ∧ v.shape = c.input.shape ∧
        (v.IsStoredIn c.input.slotType ↔ first.fact.dtype.isReal = true) ∧
        (first.fact.dtype.isReal = false → v = t) := by
  obtain ⟨first', hfirst', -, hslot, hparams⟩ := input_of_prepare hu hc
  cases hfirst.symm.trans hfirst'
  obtain ⟨v, hv⟩ := exists_quantizeInput_iff.2 ⟨hshape, hfloat⟩
  have hstore := hv
  rw [quantizeInput_of_shape_eq hshape, hparams] at hstore
  obtain ⟨hsame, hstored, hpass⟩ := Tensor.quantize_ofDatumType hslot hstore
  refine ⟨(SlotType.ofDatumType_eq_ok_iff.1 hslot).symm, v, hv, hsame.trans hshape, hstored, hpass⟩

/-! ## A pair that is passed on -/

/-- A model that passes on two numbers of some type. -/
def passPair (dtype : DatumType) : Model where
  inputs := [⟨"pair", ⟨dtype, [.fixed 1, .fixed 2]⟩, none⟩]
  outputs := [.input ⟨0, Nat.zero_lt_one⟩]

/-- The classifier that passes on two numbers of some type. -/
def pairClassifier (dtype : DatumType) (slotType : SlotType) : Classifier where
  format := .tflite
  model := passPair dtype
  input := ⟨[1, 2], slotType, .ofDatumType dtype⟩
  output := ⟨slotType, .ofDatumType dtype⟩
  delegate := .unoptimized

theorem ofModel_passPair {dtype : DatumType} {s : SlotType}
    (h : SlotType.ofDatumType dtype = .ok s) :
    UsableModel.ofModel .tflite (passPair dtype) = .ok (pairClassifier dtype s).toUsableModel := by
  refine UsableModel.ofModel_eq_ok_iff.2 ⟨_, _, rfl, rfl, ?_, ?_, rfl, rfl⟩
  · exact InputSlot.ofFact_eq_ok_iff.2 ⟨rfl, h, rfl, rfl⟩
  · exact OutputSlot.ofDatumType_eq_ok_iff.2 ⟨h, rfl⟩

/-- Bytes that stand for the halves of the numbers around three. -/
def halves : DatumType := .quantized .u8 (.affine 3 (Binary.ofPlaces 5 1))

/-- One and two, as floats. -/
def oneTwo : Tensor := ⟨.f32, [1, 2], [Binary.ofNat 1, Binary.ofNat 2], rfl⟩

/-- Where bytes stand for halves, the runtime is given bytes. -/
theorem quantizeInput_halves : ∃ v, (pairClassifier halves .u8).quantizeInput oneTwo = .ok v ∧
    v.shape = [1, 2] ∧ v.IsStoredIn .u8 := by
  have hslot : SlotType.ofDatumType halves = .ok .u8 := rfl
  have hreal : halves.isReal = true := by decide +kernel
  obtain ⟨-, v, hv, hshape, hstored, -⟩ :=
    quantizeInput_stores (ofModel_passPair hslot) (prepare_unoptimized _) rfl
      (t := oneTwo) rfl rfl
  exact ⟨v, hv, hshape, hstored.2 hreal⟩

/-- Where bytes stand for nothing else, the runtime is given floats for them. -/
theorem quantizeInput_bytes :
    UsableModel.ofModel .tflite (passPair .u8) = .ok (pairClassifier .u8 .u8).toUsableModel ∧
      prepare .unoptimized (pairClassifier .u8 .u8).toUsableModel = .ok (pairClassifier .u8 .u8) ∧
      oneTwo.shape = (pairClassifier .u8 .u8).input.shape ∧ oneTwo.dtype = .f32 ∧
      (pairClassifier .u8 .u8).quantizeInput oneTwo = .ok oneTwo ∧
      oneTwo.dtype.unquantized ≠ (pairClassifier .u8 .u8).input.slotType.datumType := by
  refine ⟨ofModel_passPair rfl, rfl, rfl, rfl, ?_, by decide⟩
  rw [quantizeInput_of_shape_eq rfl]
  exact Tensor.quantize_of_passes rfl (Or.inl rfl)

end QuantClassifier.Classifier
