import QuantClassifier.Proofs.Quantization.Slots

/-!
# Parameters that are not there

Tensors are read back by the parameters of their type, or by those that they carry. The two ways
agree on tensors that carry parameters and on floats. Plain whole numbers carry none: by what they
carry they are read as the numbers that they are, while the parameters of their type have a scale of
zero, by which every one of them is read as zero.
-/

namespace QuantClassifier

namespace QuantParams

/-- Read without a scale, a word of 64 bits is zero. -/
theorem isZero_unquantized_dequantize (q : Int) : (unquantized.dequantize q).isZero = true := by
  have hlo := @Int.le_bmod q 0x10000000000000000 (by decide)
  have hhi := @Int.bmod_lt q 0x10000000000000000 (by decide)
  have hfinite : (Binary.ofInt (Int.bmod q 0x10000000000000000) : Double).isFinite = true :=
    Binary.isFinite_ofInt (by omega)
  obtain ⟨s, hs⟩ := Binary.exists_mul_zero hfinite false
  rw [dequantize, unquantized, Int.sub_zero, hs]
  cases s <;> decide

/-- Read as it is, a word of 64 bits is the nearest float. -/
theorem identity_dequantize (q : Int) : identity.dequantize q =
    (Binary.ofInt (Int.bmod q 0x10000000000000000) : Double).toSingle := by
  have hnumber : (Binary.ofInt (Int.bmod q 0x10000000000000000) : Double).isNaN = false :=
    Binary.isNaN_ofQuotient ..
  rw [dequantize, identity, Int.sub_zero, Binary.mul_ofNat_one hnumber]

/-- Only zero is read alike without a scale and as it is. -/
theorem unquantized_dequantize_eq_iff (q : Int) :
    unquantized.dequantize q = identity.dequantize q ↔ Int.bmod q 0x10000000000000000 = 0 := by
  constructor
  · intro h
    have hzero := isZero_unquantized_dequantize q
    rw [h, identity_dequantize, Binary.isZero_toSingle_ofInt] at hzero
    exact of_decide_eq_true hzero
  · intro h
    rw [identity_dequantize, dequantize, unquantized, Int.sub_zero, h]
    decide +kernel

end QuantParams

namespace Tensor

variable {t : Tensor} {qs : List Int}

/-- The elements of a tensor of plain whole numbers that can be read as real ones. -/
def plainIntegers? : Tensor → Option (List Int)
  | ⟨.u8, _, data, _⟩ => some data
  | ⟨.i8, _, data, _⟩ => some data
  | ⟨.i32, _, data, _⟩ => some data
  | _ => none

/-- All other tensors are read by the same parameters, or have no real values. -/
theorem dequantize_ofDatumType_of_not_plain (h : t.plainIntegers? = none) :
    t.dequantize (.ofDatumType t.dtype) = t.dequantizeOwn := by
  obtain ⟨dtype, shape, data, hdata⟩ := t
  cases dtype <;> first | rfl | cases h

/-- Plain whole numbers are read without a scale by what their type says, and as they are by what
they carry. -/
theorem dequantize_of_plain (h : t.plainIntegers? = some qs) :
    t.dequantize (.ofDatumType t.dtype) = t.dequantize .unquantized ∧
      t.dequantizeOwn = t.dequantize .identity ∧ t.integers? = some qs := by
  obtain ⟨dtype, shape, data, hdata⟩ := t
  cases dtype <;> cases h <;> exact ⟨rfl, rfl, rfl⟩

/-- Two ways to read whole numbers make the same tensor if they agree on every element. -/
theorem dequantize_eq_iff {p p' : QuantParams} (h : t.integers? = some qs) :
    t.dequantize p = t.dequantize p' ↔ ∀ q ∈ qs, p.dequantize q = p'.dequantize q := by
  obtain ⟨dtype, shape, data, hdata⟩ := t
  cases dtype <;> cases h <;> simp [dequantize, restore]

/-- The parameters of the type of a tensor read it as those that it carries do exactly if none of its
elements is a plain whole number other than zero, in words of 64 bits. What they do to plain whole
numbers is to make all of them zero, while each is the nearest float by what the tensor carries. -/
theorem dequantize_ofDatumType_eq_own_iff (t : Tensor) :
    (t.dequantize (.ofDatumType t.dtype) = t.dequantizeOwn ↔
        ∀ qs, t.plainIntegers? = some qs → ∀ q ∈ qs, Int.bmod q 0x10000000000000000 = 0) ∧
      ∀ qs, t.plainIntegers? = some qs → ∃ (lost kept : Tensor) (xs : List Single),
        t.dequantize (.ofDatumType t.dtype) = .ok lost ∧ lost.shape = t.shape ∧
        lost.floats? = some xs ∧ xs.length = qs.length ∧ (∀ x ∈ xs, x.isZero = true) ∧
        t.dequantizeOwn = .ok kept ∧ kept.shape = t.shape ∧
        kept.floats? = some (qs.map fun q =>
          (Binary.ofInt (Int.bmod q 0x10000000000000000) : Double).toSingle) := by
  constructor
  · cases hplain : t.plainIntegers? with
    | none => simp [dequantize_ofDatumType_of_not_plain hplain]
    | some qs =>
      obtain ⟨hdiscovered, hown, hqs⟩ := dequantize_of_plain hplain
      rw [hdiscovered, hown, dequantize_eq_iff hqs]
      simp [QuantParams.unquantized_dequantize_eq_iff]
  · intro qs hplain
    obtain ⟨hdiscovered, hown, hqs⟩ := dequantize_of_plain hplain
    obtain ⟨lost, hlost, hlostShape, hzeros⟩ := dequantize_of_integers? .unquantized hqs
    obtain ⟨kept, hkept, hkeptShape, hfloats⟩ := dequantize_of_integers? .identity hqs
    refine ⟨lost, kept, _, hdiscovered.trans hlost, hlostShape, hzeros, List.length_map .., ?_,
      hown.trans hkept, hkeptShape, ?_⟩
    · intro x hx
      obtain ⟨q, -, rfl⟩ := List.mem_map.1 hx
      exact QuantParams.isZero_unquantized_dequantize q
    · rw [hfloats]
      congr 2
      funext q
      exact QuantParams.identity_dequantize q

/-- One byte without parameters. -/
def threeByte : Tensor := ⟨.u8, [1], [3], rfl⟩

/-- The byte is zero by the parameters of its type, and three by what it carries. -/
theorem dequantize_threeByte :
    (threeByte.dequantize (.ofDatumType threeByte.dtype)).map floats? =
        .ok (some [Binary.zero false]) ∧
      threeByte.dequantizeOwn.map floats? = .ok (some [Binary.ofNat 3]) ∧
      threeByte.dequantize (.ofDatumType threeByte.dtype) ≠ threeByte.dequantizeOwn := by
  have hlost : (threeByte.dequantize (.ofDatumType threeByte.dtype)).map floats? =
      .ok (some [QuantParams.unquantized.dequantize 3]) := rfl
  have hkept : threeByte.dequantizeOwn.map floats? =
      .ok (some [QuantParams.identity.dequantize 3]) := rfl
  have hzero : QuantParams.unquantized.dequantize 3 = .zero false := by decide +kernel
  have hthree : QuantParams.identity.dequantize 3 = Binary.ofNat 3 := by decide +kernel
  rw [hzero] at hlost
  rw [hthree] at hkept
  refine ⟨hlost, hkept, ?_⟩
  intro h
  rw [h, hkept] at hlost
  have hne : (Binary.ofNat 3 : Single) ≠ .zero false := by decide +kernel
  simp at hlost
  exact hne hlost

end Tensor

end QuantClassifier
