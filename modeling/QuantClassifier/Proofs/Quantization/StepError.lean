import QuantClassifier.Proofs.Quantization.Requantizing

/-!
# The error of storing a real value

A real value between zero and one that is stored without being cut off is read back at most one step
away (`abs_dequantize_quantize_sub_le`), whatever the scale. In storing, half a step is lost to the
whole number and very little to the quotient and the sum (`stepsNear_quantize`), and little again to
the product (`StepsNear.abs_product_sub_le`). The last rounding, to single precision, is small beside
a step as long as the product has all its digits there. Below that it is half of the least unit. If
the step is longer than the unit, that is what is left of the step, and if it is not, the product is
so near to the real value that it is rounded to it (`StepsNear.abs_product_sub_lt_of_short`).
-/

namespace QuantClassifier

namespace QuantParams

variable {p : QuantParams} {slot : SlotType} {lo hi q : ℤ} {x : Single}

/-- A place that is rounded to a number is a number. -/
theorem isFinite_place (h : (p.affine x).isFinite = true) : (p.place x).isFinite = true := by
  by_contra hinfinite
  rw [affine_eq, Binary.roundTiesEven_of_not_isFinite (Bool.eq_false_of_not_eq_true hinfinite)] at h
  exact hinfinite h

/-- No quotient beyond all numbers leads to a place among them. -/
theorem isFinite_quotient (hzero : |p.zeroPoint| ≤ 2 ^ 53)
    (hnan : (x.toDouble / p.scale).isNaN = false) (h : (p.place x).isFinite = true) :
    (x.toDouble / p.scale).isFinite = true := by
  by_contra hinfinite
  obtain ⟨s, hs⟩ := Binary.exists_eq_infinity hnan (Bool.eq_false_of_not_eq_true hinfinite)
  rw [place, hs, Binary.infinity_add s (Binary.toRat_ofInt hzero).1, Binary.isFinite_infinity] at h
  cases h

/-- A rounded place within the range of a slot is a number. -/
theorem isFinite_affine (hslot : slot.range? = some (lo, hi)) (hlow : (lo : ℚ) ≤ (p.affine x).toRat)
    (hhigh : (p.affine x).toRat ≤ hi) : (p.affine x).isFinite = true := by
  obtain ⟨hlo, hhi, -, -⟩ := SlotType.range_bounds hslot
  have hloRat : (-128 : ℚ) ≤ lo := by exact_mod_cast hlo
  have hhiRat : (hi : ℚ) ≤ 255 := by exact_mod_cast hhi
  have hpow : (2 : ℚ) ^ 8 < 2 ^ 1024 := pow_lt_pow_right₀ one_lt_two (by norm_num)
  apply Binary.isFinite_double_iff.2
  apply lt_of_le_of_lt _ hpow
  rw [abs_le]
  constructor <;> linarith

/-- The two roundings on the way to a place in the range of a slot. -/
theorem abs_place_error_le {t v : Double} {r : ℚ} {z : ℤ} (hquotient : t.Rounds r)
    (hsum : v.Rounds (t.toRat + z)) (hr : 0 ≤ r) (hzeroLow : -128 ≤ z) (hzeroHigh : z ≤ 255)
    (hv : v.toRat < 384) : |v.toRat - (r + z)| ≤ 1 / 2 ^ 43 := by
  have hzLow : (-128 : ℚ) ≤ z := by exact_mod_cast hzeroLow
  have hzHigh : (z : ℚ) ≤ 255 := by exact_mod_cast hzeroHigh
  have ht0 := hquotient.nonneg hr
  -- The sum is less than 384, so the quotient is less than 512.
  have hlt := hsum.lt_of_toRat_lt_intCast (k := 384) (by norm_num) (by exact_mod_cast hv)
  have ht : t.toRat < (512 : ℤ) := by
    push_cast at hlt ⊢
    linarith
  have hr512 := hquotient.lt_of_toRat_lt_intCast (by norm_num) ht
  push_cast at hlt ht hr512
  have hquotientError := hquotient.abs_error_double_le (e := -44) (by norm_num) (by norm_num) (by
    rw [abs_of_nonneg hr]
    norm_num
    linarith)
  have hsumError := hsum.abs_error_double_le (e := -43) (by norm_num) (by norm_num) (by
    rw [abs_le]
    norm_num
    constructor <;> linarith)
  obtain ⟨hquotientLow, hquotientHigh⟩ := abs_le.1 hquotientError
  obtain ⟨hsumLow, hsumHigh⟩ := abs_le.1 hsumError
  norm_num at hquotientLow hquotientHigh hsumLow hsumHigh
  rw [abs_le]
  constructor <;> linarith

/-- The stored value is so many steps from the zero point, and little more than half a step from the
real value. -/
structure StepsNear (p : QuantParams) (q : ℤ) (a : ℚ) : Prop where
  nonneg : 0 ≤ q - p.zeroPoint
  le : q - p.zeroPoint ≤ 255
  near : |((q - p.zeroPoint : ℤ) : ℚ) * p.scale.toRat - a| ≤ (1 / 2 + 1 / 2 ^ 43) * p.scale.toRat

/-- A real value that is not negative and is stored without being cut off is near to its stored
value. -/
theorem stepsNear_quantize (hslot : slot.range? = some (lo, hi)) (hx : x.isFinite = true)
    (hx0 : 0 ≤ x.toRat) (hscale : p.scale.isFinite = true) (hpos : 0 < p.scale.toRat)
    (hzeroLow : lo ≤ p.zeroPoint) (hzeroHigh : p.zeroPoint ≤ hi)
    (hlow : (lo : ℚ) ≤ (p.affine x).toRat) (hhigh : (p.affine x).toRat ≤ hi) :
    p.StepsNear (p.quantize lo hi x) x.toRat := by
  obtain ⟨hlo, hhi, hrange, hlength⟩ := SlotType.range_bounds hslot
  have hzero : |p.zeroPoint| ≤ 2 ^ 53 := abs_le.2 (by omega)
  have hplace := isFinite_place (isFinite_affine hslot hlow hhigh)
  obtain ⟨k, hnearest, -, hk, hq⟩ := quantize_of_isFinite hslot hplace
  rw [hk] at hlow hhigh
  have hklow : lo ≤ k := by exact_mod_cast hlow
  have hkhigh : k ≤ hi := by exact_mod_cast hhigh
  have hqk : p.quantize lo hi x = k := by omega
  have hkRat : (k : ℚ) ≤ 255 := by exact_mod_cast le_trans hkhigh hhi
  obtain ⟨hroundLow, hroundHigh⟩ := abs_le.1 hnearest.near
  have hratio : 0 ≤ x.toRat / p.scale.toRat := div_nonneg hx0 (le_of_lt hpos)
  have hquotient := rounds_quotient hx hscale (ne_of_gt hpos)
  have hsum := rounds_place (isFinite_quotient hzero hquotient.isNaN hplace) hzero
  obtain ⟨herrorLow, herrorHigh⟩ := abs_le.1 (abs_place_error_le hquotient hsum hratio
    (le_trans hlo hzeroLow) (le_trans hzeroHigh hhi) (by linarith))
  have hsteps : |((k - p.zeroPoint : ℤ) : ℚ) - x.toRat / p.scale.toRat| ≤ 1 / 2 + 1 / 2 ^ 43 := by
    rw [abs_le, Int.cast_sub]
    constructor <;> linarith
  rw [hqk]
  refine ⟨?_, by omega, ?_⟩
  · have hgt : ((-1 : ℤ) : ℚ) < ((k - p.zeroPoint : ℤ) : ℚ) := by
      have hlow := (abs_le.1 hsteps).1
      rw [Int.cast_neg, Int.cast_one]
      linarith
    exact Int.lt_iff_add_one_le.1 (Int.cast_lt.1 hgt)
  · rw [abs_mul_sub_eq hpos]
    exact mul_le_mul_of_nonneg_right hsteps (le_of_lt hpos)

namespace StepsNear

variable {a b : ℚ} (h : p.StepsNear q a) (hpos : 0 < p.scale.toRat)

include h

theorem nonneg_rat : (0 : ℚ) ≤ (q - p.zeroPoint : ℤ) := by exact_mod_cast h.nonneg

theorem le_rat : ((q - p.zeroPoint : ℤ) : ℚ) ≤ 255 := by exact_mod_cast h.le

include hpos

/-- Steps that are too long to count up to the real value are not taken at all. -/
theorem steps_mul_le (ha : a ≤ 1) : ((q - p.zeroPoint : ℤ) : ℚ) * p.scale.toRat ≤ 3 := by
  obtain ⟨-, hhigh⟩ := abs_le.1 h.near
  rcases Int.lt_or_eq_of_le h.nonneg with hsteps | hnone
  · have hone : (1 : ℚ) ≤ (q - p.zeroPoint : ℤ) := by exact_mod_cast hsteps
    have hstep := mul_le_mul_of_nonneg_right hone (le_of_lt hpos)
    linarith
  · rw [← hnone]
    norm_num

/-- What is lost to the product in double precision is much less than a step. -/
theorem product_bounds {P : Double} (ha : a ≤ 1) (hscale : p.scale.isFinite = true)
    (hP : P.Rounds ((q - p.zeroPoint : ℤ) * p.scale.toRat)) :
    0 ≤ P.toRat ∧ P.toRat ≤ 4 ∧ P.toRat ≤ 256 * p.scale.toRat ∧
      |P.toRat - (q - p.zeroPoint : ℤ) * p.scale.toRat| ≤ p.scale.toRat / 2 ^ 45 := by
  have hthree := h.steps_mul_le hpos ha
  have hproduct := mul_nonneg h.nonneg_rat (le_of_lt hpos)
  have hproductLe := mul_le_mul_of_nonneg_right h.le_rat (le_of_lt hpos)
  obtain ⟨k, hk⟩ := Binary.exists_leastSteps hscale
  have hsteps : ((q - p.zeroPoint : ℤ) : ℚ) * p.scale.toRat =
      ((q - p.zeroPoint) * k : ℤ) * 2 ^ Format.double.minExponent := by
    rw [hk]
    push_cast
    ring
  have hpow : (2 : ℚ) ^ 2 < 2 ^ 1024 := pow_lt_pow_right₀ one_lt_two (by norm_num)
  have herror := hP.abs_error_mul_le_of_steps hsteps (by
    rw [abs_of_nonneg hproduct, Binary.number_infinity_double]
    exact lt_of_le_of_lt (by linarith) hpow)
  have hhidden : (Format.double.hiddenBit : ℚ) = 2 ^ 52 := Format.hiddenBit_eq _
  rw [hhidden, abs_of_nonneg hproduct] at herror
  generalize hproductEq : ((q - p.zeroPoint : ℤ) : ℚ) * p.scale.toRat = product at *
  have hsmall : |P.toRat - product| ≤ p.scale.toRat / 2 ^ 45 := by linarith
  have hfew : |P.toRat - product| ≤ 1 := by linarith
  obtain ⟨-, hhigh⟩ := abs_le.1 hfew
  obtain ⟨-, hhigh'⟩ := abs_le.1 hsmall
  refine ⟨hP.nonneg hproduct, by linarith, by linarith, hsmall⟩

/-- The last rounding starts little more than half a step from the real value. -/
theorem abs_product_sub_le (hb : |b - (q - p.zeroPoint : ℤ) * p.scale.toRat| ≤
    p.scale.toRat / 2 ^ 45) : |b - a| ≤ (1 / 2 + 1 / 2 ^ 42) * p.scale.toRat := by
  have htriangle := abs_sub_le b ((q - p.zeroPoint : ℤ) * p.scale.toRat) a
  have hnear := h.near
  linarith

/-- With a step that is hardly longer than the least unit of a float, the product is less than half a
unit from the float. -/
theorem abs_product_sub_lt_of_short {n : ℤ} {unit : ℚ} (hunit : 0 < unit) (ha : a = n * unit)
    (hshort : p.scale.toRat < unit * (1 + 1 / 2 ^ 20))
    (hb : |b - (q - p.zeroPoint : ℤ) * p.scale.toRat| ≤ p.scale.toRat / 2 ^ 45) :
    |b - a| < unit / 2 := by
  rcases le_or_gt p.scale.toRat (unit * (1 - 1 / 2 ^ 20)) with hless | hmore
  · have hnear := h.abs_product_sub_le hpos hb
    linarith
  · -- A step is as good as a unit, so the real value is as many units as there are steps.
    have hsteps0 := h.nonneg_rat
    have hsteps := h.le_rat
    have hnear := h.near
    generalize q - p.zeroPoint = d at *
    have hdrift : |(d : ℚ) * (unit - p.scale.toRat)| ≤ 255 * (unit / 2 ^ 20) := by
      rw [abs_mul, abs_of_nonneg hsteps0]
      apply mul_le_mul hsteps _ (abs_nonneg _) (by norm_num)
      rw [abs_le]
      constructor <;> linarith
    have hsame : d = n := by
      have htriangle := abs_add_le ((d : ℚ) * (unit - p.scale.toRat)) (d * p.scale.toRat - a)
      have hsplit : (d : ℚ) * unit - n * unit =
          d * (unit - p.scale.toRat) + (d * p.scale.toRat - a) := by
        rw [ha]
        ring
      apply eq_of_abs_mul_sub_mul_lt hunit
      rw [hsplit]
      linarith
    have hproduct : (d : ℚ) * p.scale.toRat - a = -(d * (unit - p.scale.toRat)) := by
      rw [ha, hsame]
      ring
    have htriangle := abs_sub_le b (d * p.scale.toRat) a
    rw [hproduct, abs_neg] at htriangle
    linarith

end StepsNear

/-- Whatever the size of a step, the rounding to single precision leaves a step at most in all. -/
theorem StepsNear.abs_rounded_sub_le {y : Single} {b : ℚ} (hnear : p.StepsNear q x.toRat)
    (hpos : 0 < p.scale.toRat) (hx : x.isFinite = true) (hy : y.isFinite = true)
    (hrounds : y.Rounds b) (hb0 : 0 ≤ b) (hb4 : b ≤ 4) (hbSteps : b ≤ 256 * p.scale.toRat)
    (hb : |b - (q - p.zeroPoint : ℤ) * p.scale.toRat| ≤ p.scale.toRat / 2 ^ 45) :
    |y.toRat - x.toRat| ≤ p.scale.toRat := by
  have hhidden : (Format.single.hiddenBit : ℚ) = 2 ^ 23 := Format.hiddenBit_eq _
  have hunit : (0 : ℚ) < 2 ^ Format.single.minExponent := zpow_pos two_pos _
  have hproduct := hnear.abs_product_sub_le hpos hb
  have htriangle := abs_sub_le y.toRat b x.toRat
  rcases le_or_gt (Format.single.hiddenBit * 2 ^ Format.single.minExponent : ℚ) |b|
    with hfull | hfew
  · have hlt : |b| < Format.single.number Format.single.infinity := by
      rw [abs_of_nonneg hb0, Binary.number_infinity_single]
      linarith
    have herror := hrounds.abs_error_mul_le hfull hlt
    rw [hhidden, abs_of_nonneg hb0] at herror
    linarith
  · have herror := hrounds.abs_error_le (le_refl Format.single.minExponent) (by decide) (by
      rw [hhidden] at hfew ⊢
      linarith)
    rcases le_or_gt (2 ^ Format.single.minExponent * (1 + 1 / 2 ^ 20)) p.scale.toRat
      with hlong | hshort
    · linarith
    · obtain ⟨n, hn⟩ := Binary.exists_leastSteps hx
      have hless := hnear.abs_product_sub_lt_of_short hpos hunit hn hshort hb
      rw [abs_sub_comm] at hless
      rw [hrounds.toRat_eq_of_abs_sub_lt hy hx hless, sub_self, abs_zero]
      exact le_of_lt hpos

/-- A real value between zero and one that is stored without being cut off is read back at most one
step away. -/
theorem abs_dequantize_quantize_sub_le (hslot : slot.range? = some (lo, hi))
    (hx : x.isFinite = true) (hx0 : 0 ≤ x.toRat) (hx1 : x.toRat ≤ 1)
    (hscale : p.scale.isFinite = true) (hpos : 0 < p.scale.toRat) (hzeroLow : lo ≤ p.zeroPoint)
    (hzeroHigh : p.zeroPoint ≤ hi) (hlow : (lo : ℚ) ≤ (p.affine x).toRat)
    (hhigh : (p.affine x).toRat ≤ hi) :
    (p.dequantize (p.quantize lo hi x)).isFinite = true ∧
      |(p.dequantize (p.quantize lo hi x)).toRat - x.toRat| ≤ p.scale.toRat := by
  have hnear := stepsNear_quantize hslot hx hx0 hscale hpos hzeroLow hzeroHigh hlow hhigh
  generalize p.quantize lo hi x = q at hnear
  have hdist : |q - p.zeroPoint| ≤ 2 ^ 53 := by
    have hnonneg := hnear.nonneg
    have hle := hnear.le
    rw [abs_le]
    omega
  have hP := rounds_product hscale hdist
  rw [dequantize_eq hdist]
  generalize Binary.ofInt (q - p.zeroPoint) * p.scale = P at hP
  obtain ⟨hP0, hP4, hPSteps, hPNear⟩ := hnear.product_bounds hpos hx1 hscale hP
  have hfinite : P.isFinite = true := by
    have hpow : (2 : ℚ) ^ 2 < 2 ^ 1024 := pow_lt_pow_right₀ one_lt_two (by norm_num)
    apply Binary.isFinite_double_iff.2
    apply lt_of_le_of_lt _ hpow
    rw [abs_of_nonneg hP0]
    linarith
  have hrounds := Binary.rounds_convert .single hfinite
  have hy : (P.convert .single).isFinite = true := by
    apply hrounds.isFinite_of_abs_le
    rw [abs_of_nonneg hP0]
    linarith
  exact ⟨hy, hnear.abs_rounded_sub_le hpos hx hy hrounds hP0 hP4 hPSteps hPNear⟩

/-- Steps of three sixteenths. -/
def sixteenths : QuantParams := ⟨Binary.ofScaled 3 (-4), 0⟩

/-- One half is stored as three steps of three sixteenths, one sixteenth away. -/
theorem abs_sixteenths_half_sub_le :
    sixteenths.quantize 0 255 (Binary.ofScaled 1 (-1)) = 3 ∧
      sixteenths.dequantize 3 = Binary.ofScaled 9 (-4) ∧
      |(sixteenths.dequantize (sixteenths.quantize 0 255 (Binary.ofScaled 1 (-1)))).toRat - 1 / 2| ≤
        3 / 16 := by
  have hx : (Binary.ofScaled 1 (-1) : Single).value = .finite false (2 ^ 23) (-24) := by
    decide +kernel
  have hxRat : (Binary.ofScaled 1 (-1) : Single).toRat = 1 / 2 := by
    rw [Binary.toRat_of_value hx, withSign_false]
    norm_num
  have hscale : sixteenths.scale.value = .finite false (3 * 2 ^ 51) (-55) := by decide +kernel
  have hscaleRat : sixteenths.scale.toRat = 3 / 16 := by
    rw [Binary.toRat_of_value hscale, withSign_false]
    norm_num
  have haffine : sixteenths.affine (Binary.ofScaled 1 (-1)) = Binary.ofInt 3 := by decide +kernel
  have haffineRat : (sixteenths.affine (Binary.ofScaled 1 (-1))).toRat = 3 := by
    rw [haffine]
    exact (Binary.toRat_ofInt (by decide)).2
  obtain ⟨-, hle⟩ := abs_dequantize_quantize_sub_le (p := sixteenths)
    (x := Binary.ofScaled 1 (-1)) (rfl : SlotType.u8.range? = _) (Binary.isFinite_of_value hx)
    (by rw [hxRat]; norm_num) (by rw [hxRat]; norm_num) (Binary.isFinite_of_value hscale) (by rw [hscaleRat]; norm_num)
    (by decide) (by decide) (by rw [haffineRat]; norm_num) (by rw [haffineRat]; norm_num)
  rw [hxRat, hscaleRat] at hle
  exact ⟨by decide +kernel, by decide +kernel, hle⟩

end QuantParams

end QuantClassifier
