import QuantClassifier.Proofs.Binary.Order
import QuantClassifier.Proofs.Quantization.Requantizing
import QuantClassifier.Proofs.Quantization.Slots

/-!
# Stored values are in the order of the real ones

With a scale above zero every operation on the way from a real value to the stored one keeps the
order, and so does every operation on the way back, at the ends of their ranges too. Real values in
order are stored in order (`quantize_monotone`), and stored values in order are read back in order
(`dequantize_monotone`): the ranking of raw scores is that of the real ones, though different raw
scores may become equal.
-/

namespace QuantClassifier

/-- Two lists of one length. Where elements of the first are in order, so are those of the second at
the same places. -/
structure OrderKept {α β : Type} [LE α] [LE β] (xs : List α) (ys : List β) : Prop where
  length_eq : ys.length = xs.length
  le_of_le : ∀ {i j : ℕ} {x x' : α} {y y' : β}, xs[i]? = some x → xs[j]? = some x' →
    ys[i]? = some y → ys[j]? = some y' → x ≤ x' → y ≤ y'

theorem OrderKept.map {α β : Type} [LE α] [LE β] {f : α → β} {xs : List α}
    (h : ∀ x ∈ xs, ∀ x' ∈ xs, x ≤ x' → f x ≤ f x') : OrderKept xs (xs.map f) where
  length_eq := List.length_map f
  le_of_le := by
    intro i j x x' y y' hx hx' hy hy' hle
    rw [List.getElem?_map, hx] at hy
    rw [List.getElem?_map, hx'] at hy'
    cases hy
    cases hy'
    exact h x (List.mem_of_getElem? hx) x' (List.mem_of_getElem? hx') hle

namespace QuantParams

variable {p : QuantParams} {slot : SlotType} {lo hi q q' : ℤ} {x y : Single}

/-! ## Storing -/

section Storing

variable (hscale : p.scale.isFinite = true) (hpos : 0 < p.scale.toRat)
  (hzero : |p.zeroPoint| ≤ 2 ^ 53)

include hscale hpos hzero

theorem place_le_place (h : x ≤ y) : p.place x ≤ p.place y := by
  have hdouble : x.toDouble ≤ y.toDouble := Binary.keepsOrder_convert .single .double h
  have hquotient : x.toDouble / p.scale ≤ y.toDouble / p.scale :=
    Binary.keepsOrder_div hscale hpos hdouble
  exact Binary.keepsOrder_add (Binary.toRat_ofInt hzero).1 hquotient

theorem quantize_le_quantize (hslot : slot.range? = some (lo, hi)) (h : x ≤ y) :
    p.quantize lo hi x ≤ p.quantize lo hi y := by
  have hplace := place_le_place hscale hpos hzero h
  have haffine : p.affine x ≤ p.affine y := Binary.keepsOrder_roundTiesEven hplace
  obtain ⟨hxPlace, hyPlace, -⟩ := Binary.le_iff.1 hplace
  obtain ⟨hx, hy, hle⟩ := Binary.le_iff.1 haffine
  obtain ⟨k, hk⟩ := Binary.exists_toRat_roundTiesEven hxPlace
  obtain ⟨j, hj⟩ := Binary.exists_toRat_roundTiesEven hyPlace
  rw [affine_eq, affine_eq, hk, hj] at hle
  have hkj : k ≤ j := by exact_mod_cast hle
  rw [quantize_of_toRat hslot hx hk, quantize_of_toRat hslot hy hj]
  omega

end Storing

/-- With a finite scale above zero, real values in order are stored in order, in every slot with a
range. So the elements of a stored tensor are in the order of those of the float tensor; a slot of
floats has the float tensor itself. -/
theorem quantize_monotone (hscale : p.scale.isFinite = true) (hpos : 0 < p.scale.toRat)
    (hlow : -2 ^ 31 ≤ p.zeroPoint) (hhigh : p.zeroPoint < 2 ^ 31) :
    (∀ {slot : SlotType} {lo hi : ℤ} {x y : Single}, slot.range? = some (lo, hi) → x ≤ y →
        p.quantize lo hi x ≤ p.quantize lo hi y) ∧
      ∀ {t : Tensor} {xs : List Single} (slot : SlotType), t.floats? = some xs →
        ∃ v, t.quantize p slot = .ok v ∧ v.shape = t.shape ∧ (slot = .f32 → v = t) ∧
          (slot ≠ .f32 → ∃ qs, v.integers? = some qs ∧ OrderKept xs qs) := by
  have hzero : |p.zeroPoint| ≤ 2 ^ 53 := abs_le.2 (by omega)
  refine ⟨fun hslot h => quantize_le_quantize hscale hpos hzero hslot h, ?_⟩
  intro t xs slot hxs
  rcases eq_or_ne slot .f32 with rfl | hne
  · have ht := Tensor.dtype_of_floats? hxs
    exact ⟨t, Tensor.quantize_of_passes ht (Or.inr rfl), rfl, fun _ => rfl, fun h => absurd rfl h⟩
  · obtain ⟨lo, hi, hslot⟩ := SlotType.exists_range? hne
    have hquantized : p.isUnquantized = false :=
      Bool.eq_false_of_not_eq_true fun h => ne_of_gt hpos (Binary.toRat_eq_zero_iff.2 h)
    obtain ⟨v, hv, hstored⟩ := Tensor.quantize_of_range? hxs hquantized hslot
    refine ⟨v, hv, hstored.shape, fun h => absurd h hne, fun _ => ⟨_, hstored.integers, ?_⟩⟩
    exact OrderKept.map fun x _ y _ h => quantize_le_quantize hscale hpos hzero hslot h

/-- Stored values that are counted from three below zero on, in the least steps of double precision.
-/
def finestSteps : QuantParams := ⟨Binary.ofScaled 1 (-1074), -3⟩

/-- Both infinities and the negative zero between them. -/
def farthest : Tensor :=
  ⟨.f32, [3], [Binary.infinity false, Binary.zero true, Binary.infinity true], rfl⟩

/-- The order is kept where quotients are cut off at the ends of the range. -/
theorem quantize_monotone_finestSteps :
    finestSteps.quantize (-128) 127 (Binary.infinity true) = -128 ∧
      finestSteps.quantize (-128) 127 (Binary.zero true) = -3 ∧
      finestSteps.quantize (-128) 127 (Binary.infinity true) ≤
        finestSteps.quantize (-128) 127 (Binary.zero true) ∧
      ∃ v qs, farthest.quantize finestSteps .i8 = .ok v ∧ v.integers? = some qs ∧
        OrderKept [Binary.infinity false, (Binary.zero true : Single), Binary.infinity true] qs := by
  have hvalue : finestSteps.scale.value = .finite false 1 (-1074) := by decide +kernel
  have hpos : 0 < finestSteps.scale.toRat := by
    rw [Binary.toRat_of_value hvalue, withSign_false]
    positivity
  obtain ⟨hvalues, htensors⟩ := quantize_monotone (Binary.isFinite_of_value hvalue) hpos
    (by decide) (by decide)
  have hle : (Binary.infinity true : Single) ≤ Binary.zero true :=
    Binary.infinity_le Binary.isNaN_zero
  obtain ⟨v, hv, -, -, hstored⟩ := htensors .i8 (rfl : farthest.floats? = some _)
  obtain ⟨qs, hqs, hkept⟩ := hstored (by decide)
  exact ⟨by decide +kernel, by decide +kernel,
    hvalues (rfl : SlotType.i8.range? = some (-128, 127)) hle, v, qs, hv, hqs, hkept⟩

/-! ## Reading back -/

theorem dequantize_le_dequantize (hscale : p.scale.isFinite = true) (hpos : 0 < p.scale.toRat)
    (hq : |q - p.zeroPoint| ≤ 2 ^ 53) (hq' : |q' - p.zeroPoint| ≤ 2 ^ 53) (h : q ≤ q') :
    p.dequantize q ≤ p.dequantize q' := by
  rw [dequantize_eq hq, dequantize_eq hq']
  have hsteps : (Binary.ofInt (q - p.zeroPoint) : Double) ≤ Binary.ofInt (q' - p.zeroPoint) :=
    Binary.ofInt_le_ofInt (by omega)
  have hproduct := Binary.keepsOrder_mul hscale hpos hsteps
  exact Binary.keepsOrder_convert .double .single hproduct

end QuantParams

namespace Tensor

variable {t : Tensor} {p : QuantParams} {qs : List ℤ}

/-- With a finite scale above zero, whole numbers of 32 bits, as all storage types hold, are read
back in order. No distance to the zero point is cut off to 64 bits, none of the floats is a NaN, and
equal numbers make the same float. -/
theorem dequantize_monotone (hqs : t.integers? = some qs)
    (hwords : ∀ q ∈ qs, -2 ^ 31 ≤ q ∧ q < 2 ^ 31) (hscale : p.scale.isFinite = true)
    (hpos : 0 < p.scale.toRat) (hlow : -2 ^ 31 ≤ p.zeroPoint) (hhigh : p.zeroPoint < 2 ^ 31) :
    (∀ q ∈ qs, -2 ^ 63 ≤ q - p.zeroPoint ∧ q - p.zeroPoint < 2 ^ 63 ∧
        p.dequantize q = (Binary.ofInt (q - p.zeroPoint) * p.scale).toSingle) ∧
      ∃ r xs, t.dequantize p = .ok r ∧ r.shape = t.shape ∧ r.floats? = some xs ∧
        OrderKept qs xs ∧ ∀ i j : ℕ, qs[i]? = qs[j]? → xs[i]? = xs[j]? := by
  have hdist : ∀ q ∈ qs, |q - p.zeroPoint| ≤ 2 ^ 53 := fun q hq => by
    have hword := hwords q hq
    exact abs_le.2 (by omega)
  constructor
  · intro q hq
    have hword := hwords q hq
    exact ⟨by omega, by omega, QuantParams.dequantize_eq (hdist q hq)⟩
  · obtain ⟨r, hr, hshape, hfloats⟩ := dequantize_of_integers? p hqs
    refine ⟨r, _, hr, hshape, hfloats, ?_, ?_⟩
    · exact OrderKept.map fun q hq q' hq' h =>
        QuantParams.dequantize_le_dequantize hscale hpos (hdist q hq) (hdist q' hq') h
    · intro i j h
      rw [List.getElem?_map, List.getElem?_map, h]

/-- The least and the greatest word of 32 bits. -/
def farthestWords : Tensor := ⟨.i32, [2], [-0x80000000, 0x7FFFFFFF], rfl⟩

/-- The greatest steps, counted from the least word on. -/
def greatestSteps : QuantParams := ⟨Binary.ofScaled (2 ^ 53 - 1) 971, -0x80000000⟩

/-- The words are read back as zero and infinity. -/
theorem dequantize_monotone_farthestWords :
    ∃ r xs, farthestWords.dequantize greatestSteps = .ok r ∧ r.floats? = some xs ∧
      xs = [Binary.zero false, Binary.infinity false] ∧ OrderKept [(-0x80000000 : ℤ), 0x7FFFFFFF] xs := by
  have hvalue : greatestSteps.scale.value = .finite false (2 ^ 53 - 1) 971 := by decide +kernel
  have hpos : 0 < greatestSteps.scale.toRat := by
    rw [Binary.toRat_of_value hvalue, withSign_false]
    norm_num
  obtain ⟨-, r, xs, hr, -, hxs, hkept, -⟩ := dequantize_monotone
    (rfl : farthestWords.integers? = some [-0x80000000, 0x7FFFFFFF]) (by decide)
    (Binary.isFinite_of_value hvalue) hpos (by decide) (by decide)
  refine ⟨r, xs, hr, hxs, ?_, hkept⟩
  have hdata : [-0x80000000, 0x7FFFFFFF].map greatestSteps.dequantize =
      [Binary.zero false, Binary.infinity false] := by decide +kernel
  cases hr
  exact (Option.some.inj hxs).symm.trans hdata

end Tensor

end QuantClassifier
