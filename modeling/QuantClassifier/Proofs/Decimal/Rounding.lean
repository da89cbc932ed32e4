import QuantClassifier.Decimal.Parse
import QuantClassifier.Proofs.Binary.Order

/-!
# The float of a decimal

`toBinary` tells decimals far beyond a format's range by the exponent of their leading digit. The
leading digit bounds the decimal (`zpow_leading_le_toRat`, `toRat_lt_zpow_leading`), so these are
decimals that round to an infinity or to a zero anyway, and `toBinary` is the rounding of the whole
fraction (`toBinary_eq_ofQuotient`). Hence it is the nearest float of every decimal, with its sign
(`rounds_toBinary`).
-/

namespace QuantClassifier

namespace Binary

variable {fmt : Format} {x y : Binary fmt} {s : Bool} {a : ℚ}

theorem eq_of_toRat_eq (hsign : x.negative = y.negative) (h : x.toRat = y.toRat) : x = y := by
  have hnumber : fmt.number x.magnitude = fmt.number y.magnitude := by
    rw [← abs_toRat, ← abs_toRat, h]
  have hmagnitude := fmt.number_strictMono.injective hnumber
  cases x
  cases y
  simp_all

namespace Rounds

/-- A number has one rounding of a sign. -/
theorem unique (hx : x.Rounds a) (hy : y.Rounds a) (hsign : x.negative = y.negative) : x = y :=
  eq_of_toRat_eq hsign (le_antisymm (hy.toRat_le_toRat hx) (hx.toRat_le_toRat hy))

theorem eq_infinity (h : x.Rounds (withSign s a)) (hsign : x.negative = s)
    (ha : fmt.number fmt.infinity ≤ a) : x = infinity s := by
  apply eq_of_toRat_eq hsign
  obtain ⟨hlow, hhigh⟩ := abs_le.1 (abs_toRat_le_infinity h.isNaN)
  have hinfinity : (infinity s : Binary fmt).toRat = _ := toRat_infinity s
  cases s with
  | false =>
    have hle := h.le_toRat (isNaN_infinity false) (by simpa [hinfinity] using ha)
    rw [hinfinity] at hle ⊢
    exact le_antisymm hhigh hle
  | true =>
    have hle := h.toRat_le (isNaN_infinity true) (by simpa [hinfinity] using ha)
    rw [hinfinity] at hle ⊢
    exact le_antisymm hle hlow

theorem eq_zero (h : x.Rounds a) (hsign : x.negative = s) (ha : |a| < 2 ^ fmt.minExponent / 2) :
    x = zero s := by
  have hzero : |(zero s : Binary fmt).toRat - a| = |a| := by rw [toRat_zero, zero_sub, abs_neg]
  have hfinite : x.isFinite = true := by
    have hnear := h.nearest (zero s) isNaN_zero
    have htriangle := abs_sub_abs_le_abs_sub x.toRat a
    have hbits : 2 ^ 2 ≤ 2 ^ fmt.exponentBits :=
      Nat.pow_le_pow_right Nat.two_pos fmt.two_le_exponentBits
    have hunit : (2 : ℚ) ^ fmt.minExponent ≤ fmt.number fmt.infinity := by
      have hexponent : fmt.minExponent ≤
          fmt.minExponent + ((2 ^ fmt.exponentBits : ℕ) - 2 : ℤ) + fmt.fractionBits := by omega
      rw [fmt.number_infinity_eq_zpow]
      exact zpow_le_zpow_right₀ one_le_two hexponent
    rw [isFinite_iff]
    linarith
  exact eq_of_toRat_eq hsign
    (h.toRat_eq_of_abs_sub_lt hfinite (decide_eq_true fmt.infinity_pos) (hzero.symm ▸ ha))

end Rounds

end Binary

namespace Decimal

open Binary

variable {fmt : Format} {d : Decimal}

/-- The number that a decimal stands for. -/
def toRat (d : Decimal) : ℚ := d.digits * 10 ^ d.exponent

theorem toRat_eq_div (d : Decimal) :
    d.toRat = ((d.digits * 10 ^ d.exponent.toNat : ℕ) : ℚ) / (10 ^ (-d.exponent).toNat : ℕ) := by
  have hpow : (10 : ℚ) ^ d.exponent = 10 ^ d.exponent.toNat / 10 ^ (-d.exponent).toNat := by
    rw [← zpow_natCast, ← zpow_natCast, ← zpow_sub₀ (by norm_num)]
    congr 1
    omega
  rw [toRat, hpow]
  push_cast
  ring

/-! ## The leading digit -/

theorem zpow_leading_le_toRat (h : d.digits ≠ 0) : (10 : ℚ) ^ d.leading ≤ d.toRat := by
  obtain ⟨k, hk⟩ : ∃ k, (Nat.toDigits 10 d.digits).length = k + 1 :=
    Nat.exists_eq_add_one.2 Nat.length_toDigits_pos
  have hpow : 10 ^ k ≤ d.digits := by
    rcases Nat.eq_zero_or_pos k with rfl | hpos
    · exact Nat.pos_of_ne_zero h
    · by_contra hlt
      have hlen := (Nat.length_toDigits_le_iff (by decide) hpos).2 (Nat.lt_of_not_ge hlt)
      omega
  have hleading : d.leading = k + d.exponent := by
    rw [leading, hk]
    omega
  rw [hleading, zpow_add₀ (by norm_num), zpow_natCast, toRat]
  gcongr
  exact_mod_cast hpow

theorem toRat_lt_zpow_leading (d : Decimal) : d.toRat < (10 : ℚ) ^ (d.leading + 1) := by
  have hpow := (Nat.length_toDigits_le_iff (b := 10) (n := d.digits) (by decide)
    Nat.length_toDigits_pos).1 le_rfl
  have hleading : d.leading + 1 = (Nat.toDigits 10 d.digits).length + d.exponent := by
    rw [leading]
    omega
  rw [hleading, zpow_add₀ (by norm_num), zpow_natCast, toRat]
  gcongr
  exact_mod_cast hpow

/-- A leading digit past the format's bound stands in no finite float. -/
theorem number_infinity_le_toRat (h : d.digits ≠ 0)
    (hlead : ((2 ^ fmt.exponentBits : ℕ) : ℤ) < d.leading) :
    fmt.number fmt.infinity ≤ d.toRat := by
  have hexponent : fmt.minExponent + ((2 ^ fmt.exponentBits : ℕ) - 2 : ℤ) + fmt.fractionBits ≤
      d.leading := by
    have hhalf := Nat.two_pow_pos (fmt.exponentBits - 1)
    simp only [Format.minExponent, Nat.pow_eq]
    omega
  have hpos : 0 ≤ d.leading := le_of_lt (lt_of_le_of_lt (Int.natCast_nonneg _) hlead)
  calc fmt.number fmt.infinity
      ≤ (2 : ℚ) ^ d.leading := by
        rw [fmt.number_infinity_eq_zpow]
        exact zpow_le_zpow_right₀ one_le_two hexponent
    _ ≤ 10 ^ d.leading := zpow_le_zpow_left₀ hpos (by norm_num) (by norm_num)
    _ ≤ d.toRat := zpow_leading_le_toRat h

/-- A leading digit as far the other way stands in less than half the least positive float, in a
format whose fraction is no longer than its range. -/
theorem toRat_lt_half_unit (hfmt : fmt.fractionBits ≤ 2 ^ fmt.exponentBits)
    (hlead : d.leading < -((2 ^ fmt.exponentBits : ℕ) : ℤ)) :
    d.toRat < 2 ^ fmt.minExponent / 2 := by
  have hhalf : 2 ^ (fmt.exponentBits - 1) ≤ 2 ^ fmt.exponentBits :=
    Nat.pow_le_pow_right Nat.two_pos (Nat.sub_le _ _)
  have hexponent : -((2 * 2 ^ fmt.exponentBits : ℕ) : ℤ) ≤ fmt.minExponent - 1 := by
    simp only [Format.minExponent, Nat.pow_eq]
    omega
  generalize 2 ^ fmt.exponentBits = bound at *
  calc d.toRat < (10 : ℚ) ^ (d.leading + 1) := toRat_lt_zpow_leading d
    _ ≤ 10 ^ (-(bound : ℤ)) := zpow_le_zpow_right₀ (by norm_num) (by omega)
    _ ≤ (2 : ℚ) ^ (-((2 * bound : ℕ) : ℤ)) := by
      rw [zpow_neg, zpow_neg, zpow_natCast, zpow_natCast, pow_mul]
      gcongr
      norm_num
    _ ≤ 2 ^ (fmt.minExponent - 1) := zpow_le_zpow_right₀ one_le_two hexponent
    _ = 2 ^ fmt.minExponent / 2 := zpow_sub_one₀ two_ne_zero _

/-! ## The nearest float -/

theorem rounds_quotient (fmt : Format) (s : Bool) (d : Decimal) :
    (ofQuotient s (d.digits * 10 ^ d.exponent.toNat) (10 ^ (-d.exponent).toNat) 0 :
      Binary fmt).Rounds (withSign s d.toRat) := by
  have hrounds := rounds_ofQuotient fmt s (d.digits * 10 ^ d.exponent.toNat)
    (Nat.pow_pos (n := (-d.exponent).toNat) (show 0 < 10 by decide)) 0
  rwa [zpow_zero, mul_one, ← toRat_eq_div] at hrounds

/-- The decimals that are told by their leading digit are no exception. -/
theorem toBinary_eq_ofQuotient (hfmt : fmt.fractionBits ≤ 2 ^ fmt.exponentBits) (s : Bool)
    (d : Decimal) : toBinary fmt s d =
      ofQuotient s (d.digits * 10 ^ d.exponent.toNat) (10 ^ (-d.exponent).toNat) 0 := by
  have hrounds := rounds_quotient fmt s d
  unfold toBinary
  dsimp only
  split_ifs with hzero hhigh hlow hwhole
  · rw [hzero, Nat.zero_mul, ofQuotient_zero]
  · exact (hrounds.eq_infinity rfl (number_infinity_le_toRat hzero hhigh)).symm
  · have hpos : 0 ≤ d.toRat := by
      rw [toRat]
      positivity
    have hsmall := toRat_lt_half_unit hfmt hlow
    exact (hrounds.eq_zero rfl (by rwa [abs_withSign, abs_of_nonneg hpos])).symm
  · have hden : (-d.exponent).toNat = 0 := by omega
    rw [hden, Nat.pow_eq, Nat.pow_zero]
  · have hnum : d.exponent.toNat = 0 := by omega
    rw [hnum, Nat.pow_eq, Nat.pow_zero, Nat.mul_one]

theorem rounds_toBinary (hfmt : fmt.fractionBits ≤ 2 ^ fmt.exponentBits) (s : Bool) (d : Decimal) :
    (toBinary fmt s d).Rounds (withSign s d.toRat) := by
  rw [toBinary_eq_ofQuotient hfmt]
  exact rounds_quotient fmt s d

theorem negative_toBinary (hfmt : fmt.fractionBits ≤ 2 ^ fmt.exponentBits) (s : Bool)
    (d : Decimal) : (toBinary fmt s d).negative = s := by
  rw [toBinary_eq_ofQuotient hfmt]
  rfl

end Decimal

end QuantClassifier
