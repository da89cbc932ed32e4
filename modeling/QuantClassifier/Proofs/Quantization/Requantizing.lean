import QuantClassifier.Proofs.Quantization.Nearest

/-!
# Stored values that are read back and stored again

A stored value is read back through two roundings and stored through two more. With a scale of
single precision the product in double precision is exact, the float that is read back is at most a
quarter of a step away (`dequantize_near`), and a real value so near to a stored one is stored as it
(`quantize_of_near`). So nothing is lost on the way through the real values
(`quantize_dequantize`), unless the zero point is so far away that a step is too short for single
precision.
-/

namespace QuantClassifier

namespace Binary

/-- Double precision holds the quarters next to a whole number, so no rounding goes past them. -/
theorem Rounds.abs_sub_le_quarter {x : Double} {a : ℚ} {k : ℤ} (h : x.Rounds a)
    (hk : |k| ≤ 2 ^ 50) (ha : |a - k| ≤ 1 / 4) : |x.toRat - k| ≤ 1 / 4 := by
  obtain ⟨hlow, hhigh⟩ := abs_le.1 hk
  obtain ⟨hbelow, habove⟩ := abs_le.1 ha
  obtain ⟨y, hy, hyRat⟩ := exists_double (k := 4 * k - 1) (e := -2) (abs_le.2 (by omega))
    (by norm_num) (by norm_num)
  obtain ⟨z, hz, hzRat⟩ := exists_double (k := 4 * k + 1) (e := -2) (abs_le.2 (by omega))
    (by norm_num) (by norm_num)
  have hquarter : (2 : ℚ) ^ (-2 : ℤ) = 1 / 4 := by norm_num
  rw [hquarter] at hyRat hzRat
  push_cast at hyRat hzRat
  have hxlow := h.le_toRat hy (by linarith)
  have hxhigh := h.toRat_le hz (by linarith)
  rw [abs_le]
  constructor <;> linarith

/-- Next to a whole number of few digits a float is finite. -/
theorem isFinite_of_abs_sub_le {x : Double} {k : ℤ} (hk : |k| ≤ 2 ^ 50)
    (hx : |x.toRat - k| ≤ 1 / 4) : x.isFinite = true := by
  have hkRat : |(k : ℚ)| ≤ 2 ^ 50 := by exact_mod_cast hk
  have habs := abs_sub_abs_le_abs_sub x.toRat k
  have hpow : (2 : ℚ) ^ 51 < 2 ^ 1024 := pow_lt_pow_right₀ one_lt_two (by norm_num)
  apply isFinite_double_iff.2
  apply lt_of_le_of_lt _ hpow
  linarith

/-- Up to the greatest finite number of single precision a rounding is finite. -/
theorem Rounds.isFinite_of_abs_le {x : Single} {a : ℚ} (h : x.Rounds a)
    (ha : |a| ≤ (2 ^ 24 - 1) * 2 ^ 104) : x.isFinite = true := by
  obtain ⟨y, hy, hyRat⟩ : ∃ y : Single, y.isNaN = false ∧
      y.toRat = (2 ^ 24 - 1 : ℤ) * 2 ^ (104 : ℤ) :=
    exists_toRat_eq (by decide) (by decide) (by decide)
  have hgreatest : y.toRat = (2 ^ 24 - 1) * 2 ^ 104 := by
    rw [hyRat]
    norm_num
  rw [← hgreatest] at ha
  have hle := h.abs_toRat_le hy ha
  apply isFinite_single_iff.2
  linarith

end Binary

namespace QuantParams

variable {p : QuantParams} {slot : SlotType} {lo hi q : ℤ}

/-- Few enough steps from the zero point are a word of 64 bits. -/
theorem dequantize_eq (h : |q - p.zeroPoint| ≤ 2 ^ 53) :
    p.dequantize q = (Binary.ofInt (q - p.zeroPoint) * p.scale).toSingle := by
  obtain ⟨hlow, hhigh⟩ := abs_le.1 h
  have hword : Int.bmod (q - p.zeroPoint) 0x10000000000000000 = q - p.zeroPoint := by
    apply Int.bmod_eq_of_le
    · omega
    · omega
  rw [dequantize, hword]

/-- The product of the steps from the zero point and the scale is rounded correctly. -/
theorem rounds_product (hscale : p.scale.isFinite = true) (h : |q - p.zeroPoint| ≤ 2 ^ 53) :
    (Binary.ofInt (q - p.zeroPoint) * p.scale).Rounds
      ((q - p.zeroPoint : ℤ) * p.scale.toRat) := by
  obtain ⟨hfinite, hrat⟩ := Binary.toRat_ofInt h
  rw [← hrat]
  exact Binary.rounds_mul hfinite hscale

/-- A real value next to that of a stored value is stored as it. -/
theorem quantize_of_near {w : Single} (hslot : slot.range? = some (lo, hi)) (hlow : lo ≤ q)
    (hhigh : q ≤ hi) (hdist : |q - p.zeroPoint| ≤ 2 ^ 50) (hscale : p.scale.isFinite = true)
    (hpos : 0 < p.scale.toRat) (hw : w.isFinite = true)
    (hnear : |w.toRat - (q - p.zeroPoint : ℤ) * p.scale.toRat| ≤ p.scale.toRat / 4) :
    p.quantize lo hi w = q := by
  obtain ⟨hlo, hhi, -, -⟩ := SlotType.range_bounds hslot
  obtain ⟨hdistLow, hdistHigh⟩ := abs_le.1 hdist
  -- The quotient is next to the steps from the zero point, and the sum next to the stored value.
  have hquotient : |w.toRat / p.scale.toRat - (q - p.zeroPoint : ℤ)| ≤ 1 / 4 := by
    rw [abs_sub_comm, abs_mul_sub_eq hpos] at hnear
    rw [abs_sub_comm]
    apply le_of_mul_le_mul_right _ hpos
    linarith
  have hsteps := (rounds_quotient hw hscale (ne_of_gt hpos)).abs_sub_le_quarter hdist hquotient
  have hfinite := Binary.isFinite_of_abs_sub_le hdist hsteps
  have hsum : |(w.toDouble / p.scale).toRat + p.zeroPoint - q| ≤ 1 / 4 := by
    rw [Int.cast_sub] at hsteps
    have heq : (w.toDouble / p.scale).toRat + p.zeroPoint - q =
        (w.toDouble / p.scale).toRat - (q - p.zeroPoint) := by ring
    rwa [heq]
  have hplace : |(p.place w).toRat - q| ≤ 1 / 4 :=
    (rounds_place hfinite (abs_le.2 (by omega))).abs_sub_le_quarter (abs_le.2 (by omega)) hsum
  have hplaceFinite := Binary.isFinite_of_abs_sub_le (abs_le.2 (by omega)) hplace
  obtain ⟨k, hnearest, -, -, hquantize⟩ := quantize_of_isFinite hslot hplaceFinite
  have hk : k = q := by
    apply hnearest.eq_of_abs_sub_lt
    rw [abs_sub_comm]
    linarith
  rw [hquantize, hk]
  omega

/-- With a scale of single precision the product is exact. -/
theorem toRat_product {s : Single} (hscale : p.scale = s.toDouble) (hs : s.isFinite = true)
    (h : |q - p.zeroPoint| ≤ 2 ^ 22) :
    (Binary.ofInt (q - p.zeroPoint) * p.scale).toRat = (q - p.zeroPoint : ℤ) * s.toRat := by
  obtain ⟨hfinite, hrat⟩ := Binary.toRat_toDouble hs
  rw [← hscale] at hfinite hrat
  obtain ⟨k, e, hk, hmin, hmax, hsRat⟩ := Binary.exists_steps hs
  have hhidden : Format.single.hiddenBit = 2 ^ 23 := by decide
  have hbits : ((2 ^ Format.single.exponentBits : ℕ) : ℤ) = 256 := by decide
  rw [Binary.minExponent_single] at hmin hmax
  rw [hbits] at hmax
  rw [hhidden] at hk
  have hdigits : |(q - p.zeroPoint) * k| ≤ 2 ^ 53 := by
    rw [abs_mul]
    calc |q - p.zeroPoint| * |k| ≤ 2 ^ 22 * (2 * (2 ^ 23 : ℕ)) :=
          mul_le_mul h hk (abs_nonneg k) (by norm_num)
      _ ≤ 2 ^ 53 := by norm_num
  obtain ⟨y, hy, hyRat⟩ := Binary.exists_double (e := e) hdigits (by omega) (by omega)
  have hproduct : ((q - p.zeroPoint : ℤ) : ℚ) * p.scale.toRat = y.toRat := by
    rw [hrat, hsRat, hyRat, Int.cast_mul]
    ring
  rw [← hrat, hproduct]
  exact (rounds_product hfinite (le_trans h (by norm_num))).toRat_eq hy hproduct

/-- What is read back is next to the exact product, unless that is beyond single precision. -/
theorem dequantize_near {s : Single} (hscale : p.scale = s.toDouble) (hs : s.isFinite = true)
    (hpos : 0 < s.toRat) (hdist : |q - p.zeroPoint| ≤ 2 ^ 22)
    (hproduct : |((q - p.zeroPoint : ℤ) : ℚ)| * s.toRat ≤ (2 ^ 24 - 1) * 2 ^ 104) :
    (p.dequantize q).isFinite = true ∧
      |(p.dequantize q).toRat - (q - p.zeroPoint : ℤ) * s.toRat| ≤ s.toRat / 4 := by
  have hexact := toRat_product hscale hs hdist
  have habs : |((q - p.zeroPoint : ℤ) : ℚ) * s.toRat| =
      |((q - p.zeroPoint : ℤ) : ℚ)| * s.toRat := by rw [abs_mul, abs_of_pos hpos]
  have hgreatest : ((2 : ℚ) ^ 24 - 1) * 2 ^ 104 < 2 ^ 128 := by norm_num
  have hfinite : (Binary.ofInt (q - p.zeroPoint) * p.scale).isFinite = true := by
    apply Binary.isFinite_double_iff.2
    have hpow : (2 : ℚ) ^ 128 ≤ 2 ^ 1024 := pow_le_pow_right₀ one_le_two (by norm_num)
    rw [hexact, habs]
    exact lt_of_lt_of_le (lt_of_le_of_lt hproduct hgreatest) hpow
  have hrounds := Binary.rounds_convert .single hfinite
  rw [hexact] at hrounds
  rw [dequantize_eq (le_trans hdist (by norm_num))]
  show (Binary.convert _ _).isFinite = true ∧ |(Binary.convert _ _).toRat - _| ≤ _
  constructor
  · apply hrounds.isFinite_of_abs_le
    rw [habs]
    exact hproduct
  · -- The product is a whole number of the least units, so its relative error is bounded.
    obtain ⟨k, hk⟩ := Binary.exists_leastSteps hs
    have hsteps : ((q - p.zeroPoint : ℤ) : ℚ) * s.toRat =
        ((q - p.zeroPoint) * k : ℤ) * 2 ^ Format.single.minExponent := by
      rw [hk]
      push_cast
      ring
    have herror := hrounds.abs_error_mul_le_of_steps hsteps (by
      rw [habs, Binary.number_infinity_single]
      exact lt_of_le_of_lt hproduct hgreatest)
    have hhidden : (Format.single.hiddenBit : ℚ) = 2 ^ 23 := Format.hiddenBit_eq _
    have hdistRat : |((q - p.zeroPoint : ℤ) : ℚ)| ≤ 2 ^ 22 := by exact_mod_cast hdist
    have hquarter : |((q - p.zeroPoint : ℤ) : ℚ)| * s.toRat ≤ 2 ^ 22 * s.toRat :=
      mul_le_mul_of_nonneg_right hdistRat (le_of_lt hpos)
    rw [habs, hhidden] at herror
    linarith

/-- A stored value that is read back is stored as it was, with a scale of single precision and a zero
point that is not too far away. -/
theorem quantize_dequantize {s : Single} (hslot : slot.range? = some (lo, hi)) (hlow : lo ≤ q)
    (hhigh : q ≤ hi) (hscale : p.scale = s.toDouble) (hs : s.isFinite = true) (hpos : 0 < s.toRat)
    (hdist : |q - p.zeroPoint| ≤ 2 ^ 22)
    (hproduct : |((q - p.zeroPoint : ℤ) : ℚ)| * s.toRat ≤ (2 ^ 24 - 1) * 2 ^ 104) :
    p.quantize lo hi (p.dequantize q) = q := by
  obtain ⟨hfinite, hrat⟩ := Binary.toRat_toDouble hs
  obtain ⟨hw, hnear⟩ := dequantize_near hscale hs hpos hdist hproduct
  rw [← hscale] at hfinite hrat
  rw [← hrat] at hnear hpos
  exact quantize_of_near hslot hlow hhigh (le_trans hdist (by norm_num)) hfinite hpos hw hnear

/-- Stored values that are counted in least units of single precision. -/
def leastSteps : QuantParams := ⟨(Binary.ofScaled 1 (-149) : Single).toDouble, 252⟩

/-- Three least units are read back and stored again. -/
theorem quantize_dequantize_leastSteps :
    leastSteps.dequantize 255 = Binary.ofScaled 3 (-149) ∧
      leastSteps.quantize 0 255 (leastSteps.dequantize 255) = 255 := by
  have hvalue : (Binary.ofScaled 1 (-149) : Single).value = .finite false 1 (-149) := by
    decide +kernel
  have hrat : (Binary.ofScaled 1 (-149) : Single).toRat = 1 / 2 ^ 149 := by
    rw [Binary.toRat_of_value hvalue, withSign_false]
    norm_num
  have hdist : (255 : ℤ) - leastSteps.zeroPoint = 3 := rfl
  refine ⟨by decide +kernel, ?_⟩
  apply quantize_dequantize (rfl : SlotType.u8.range? = _) (by decide) (by decide) rfl
    (Binary.isFinite_of_value hvalue)
  · rw [hrat]
    norm_num
  · decide
  · rw [hdist, hrat]
    norm_num

end QuantParams

end QuantClassifier
