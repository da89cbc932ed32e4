import QuantClassifier.Binary.Integer
import QuantClassifier.Proofs.Binary.Rounds

/-!
# Whole numbers in double precision

Double precision holds every single precision number (`toRat_toDouble`) and the whole numbers of 53
bits (`toRat_ofInt`). A double precision number is rounded to the nearest whole number and stays a
float (`roundTiesEven_spec`), and a float that is a whole number is read as that number
(`truncate_of_toRat`).
-/

namespace QuantClassifier.Binary

variable {s : Bool} {k e : ℤ}

theorem number_infinity_double : Format.double.number Format.double.infinity = 2 ^ 1024 := by
  rw [Format.number_infinity_eq_zpow, minExponent_double, ← zpow_natCast]
  rfl

theorem number_infinity_single : Format.single.number Format.single.infinity = 2 ^ 128 := by
  rw [Format.number_infinity_eq_zpow, minExponent_single, ← zpow_natCast]
  rfl

theorem isFinite_double_iff {x : Double} : x.isFinite = true ↔ |x.toRat| < 2 ^ 1024 := by
  rw [isFinite_iff, number_infinity_double]

theorem isFinite_single_iff {x : Single} : x.isFinite = true ↔ |x.toRat| < 2 ^ 128 := by
  rw [isFinite_iff, number_infinity_single]

/-- The two infinities are as far as rounding goes. -/
theorem toRat_of_infinite {s : Bool} {x : Double} (h : x.value = .infinite s) :
    x.isNaN = false ∧ x.toRat = (if s then -2 ^ 1024 else 2 ^ 1024 : ℤ) := by
  obtain rfl := eq_infinity_of_value h
  refine ⟨decide_eq_false (Nat.lt_irrefl _), ?_⟩
  show withSign s (Format.double.number Format.double.infinity) = _
  rw [number_infinity_double]
  cases s
  · rw [withSign_false, if_neg (by decide), Int.cast_pow, Int.cast_ofNat]
  · rw [withSign_true, if_pos rfl, Int.cast_neg, Int.cast_pow, Int.cast_ofNat]

/-- A number of 53 bits in a unit of double precision. -/
theorem exists_double (hk : |k| ≤ 2 ^ 53) (hmin : -1074 ≤ e) (hmax : e ≤ 971) :
    ∃ y : Double, y.isNaN = false ∧ y.toRat = k * 2 ^ e := by
  have hhidden : Format.double.hiddenBit = 2 ^ 52 := by decide
  have hbits : ((2 ^ Format.double.exponentBits : ℕ) : ℤ) = 2048 := by decide
  apply exists_toRat_eq
  · rw [hhidden]
    norm_num at hk ⊢
    exact hk
  · rw [minExponent_double]
    exact hmin
  · rw [minExponent_double, hbits]
    omega

/-- The error of a number that has no more than 53 bits in front of a unit. -/
theorem Rounds.abs_error_double_le {x : Double} {a : ℚ} (h : x.Rounds a) (hmin : -1074 ≤ e)
    (hmax : e ≤ 971) (ha : |a| ≤ 2 ^ 53 * 2 ^ e) : |x.toRat - a| ≤ 2 ^ e / 2 := by
  have hhidden : (Format.double.hiddenBit : ℚ) = 2 ^ 52 := Format.hiddenBit_eq _
  have hbits : ((2 ^ Format.double.exponentBits : ℕ) : ℤ) = 2048 := by decide
  apply h.abs_error_le
  · rw [minExponent_double]
    exact hmin
  · rw [minExponent_double, hbits]
    omega
  · rw [hhidden, ← pow_succ']
    exact ha

/-- A whole number of 53 bits bounds what is rounded to less. -/
theorem Rounds.lt_of_toRat_lt_intCast {x : Double} {a : ℚ} (h : x.Rounds a) (hk : |k| ≤ 2 ^ 53)
    (hlt : x.toRat < k) : a < k := by
  obtain ⟨y, hy, hyRat⟩ := exists_double (e := 0) hk (by norm_num) (by norm_num)
  rw [zpow_zero, mul_one] at hyRat
  rw [← hyRat] at hlt ⊢
  exact h.lt_of_toRat_lt hy hlt

/-- Double precision holds the numbers of single precision. -/
theorem toRat_toDouble {x : Single} (h : x.isFinite = true) :
    x.toDouble.isFinite = true ∧ x.toDouble.toRat = x.toRat := by
  obtain ⟨m, e, hvalue⟩ := exists_value h
  obtain ⟨j, hdouble⟩ := exists_value_toDouble hvalue
  refine ⟨isFinite_of_value hdouble, ?_⟩
  have hsub : (e - (e - j)).toNat = j := by omega
  rw [toRat_of_value hdouble, toRat_of_value hvalue,
    two_zpow_eq_natCast_mul (show e - j ≤ e by omega), hsub]
  push_cast
  ring_nf

theorem toRat_ofInt (hk : |k| ≤ 2 ^ 53) :
    (ofInt k : Double).isFinite = true ∧ (ofInt k : Double).toRat = k := by
  obtain ⟨y, hy, hyRat⟩ := exists_double (e := 0) hk (by norm_num) (by norm_num)
  rw [zpow_zero, mul_one] at hyRat
  have hexact := (rounds_ofInt .double k).toRat_eq hy hyRat.symm
  rw [hyRat] at hexact
  refine ⟨isFinite_double_iff.2 ?_, hexact⟩
  have hkRat : |(k : ℚ)| ≤ 2 ^ 53 := by exact_mod_cast hk
  rw [hexact]
  exact lt_of_le_of_lt hkRat (pow_lt_pow_right₀ one_lt_two (by norm_num))

/-- The nearest whole number, with the sign of the number. -/
theorem isNearestEven_roundScaled (s : Bool) (m : ℕ) (e : ℤ) :
    IsNearestEven (withSign s (m * 2 ^ e)) (signed s (roundScaled roundHalfEven m e)) := by
  obtain ⟨hpos, hscale⟩ := scaleTwo_eq m one_pos e
  have hnearest := isNearestEven_roundHalfEven (scaleTwo m 1 e).1 hpos
  rw [hscale, Nat.cast_one, div_one] at hnearest
  cases s
  · exact hnearest
  · exact hnearest.neg

/-- The whole number nearest to a float is a float: the number itself, or one of at most 53 bits. -/
theorem exists_toRat_eq_roundScaled {x : Double} {m : ℕ} (h : x.value = .finite s m e) :
    ∃ y : Double, y.isFinite = true ∧
      y.toRat = (signed s (roundScaled roundHalfEven m e) : ℤ) := by
  by_cases hwhole : 0 ≤ e
  · refine ⟨x, isFinite_of_value h, ?_⟩
    have hround : roundScaled roundHalfEven m e = m * 2 ^ e.toNat := by
      rw [roundScaled, scaleTwo, if_pos hwhole]
      exact roundHalfEven_one _
    have hpow : (2 : ℚ) ^ e = 2 ^ e.toNat := by
      rw [← zpow_natCast, Int.toNat_of_nonneg hwhole]
    rw [toRat_of_value h, hround, hpow]
    cases s <;> simp [signed]
  · obtain ⟨hlt, -, hm, he⟩ := value_eq_finite_iff.1 h
    have hbits : m < 2 * Format.double.hiddenBit := by
      rw [← hm]
      exact (Format.double.isNormal_significand _).lt
    have hsmall : roundScaled roundHalfEven m e ≤ 2 ^ 53 := by
      have hhidden : Format.double.hiddenBit = 2 ^ 52 := by decide
      have hle := roundHalfEven_le (scaleTwo m 1 e).1 (scaleTwo m 1 e).2
      have hdiv : (scaleTwo m 1 e).1 / (scaleTwo m 1 e).2 ≤ m := by
        rw [scaleTwo, if_neg hwhole]
        exact Nat.div_le_self _ _
      show roundHalfEven (scaleTwo m 1 e).1 (scaleTwo m 1 e).2 ≤ 2 ^ 53
      omega
    have habs : |signed s (roundScaled roundHalfEven m e)| ≤ 2 ^ 53 := by
      have hcast : ((roundScaled roundHalfEven m e : ℕ) : ℤ) ≤ 2 ^ 53 := by exact_mod_cast hsmall
      cases s <;> simpa [signed] using hcast
    exact ⟨ofInt _, toRat_ofInt habs⟩

/-- Rounded to a whole number, a float is the nearest one. -/
theorem roundTiesEven_spec {x : Double} (h : x.isFinite = true) :
    ∃ k : ℤ, IsNearestEven x.toRat k ∧ x.roundTiesEven.isFinite = true ∧
      x.roundTiesEven.toRat = k := by
  obtain ⟨m, e, hvalue⟩ := exists_value h
  have hnearest := isNearestEven_roundScaled x.negative m e
  have hrounds := rounds_ofQuotient .double x.negative
    (roundScaled roundHalfEven m e) one_pos 0
  have hx : x.roundTiesEven = ofQuotient x.negative (roundScaled roundHalfEven m e) 1 0 := by
    rw [roundTiesEven, hvalue]
  have hsigned : withSign x.negative
      ((roundScaled roundHalfEven m e : ℕ) / (1 : ℕ) * 2 ^ (0 : ℤ)) =
        (signed x.negative (roundScaled roundHalfEven m e) : ℤ) := by
    cases x.negative <;> simp [signed]
  rw [← toRat_of_value hvalue] at hnearest
  rw [← hx, hsigned] at hrounds
  obtain ⟨y, hy, hyRat⟩ := exists_toRat_eq_roundScaled hvalue
  have hexact := hrounds.toRat_eq (isNaN_of_isFinite hy) hyRat.symm
  exact ⟨_, hnearest, isFinite_iff.2 (hexact ▸ isFinite_iff.1 hy), hexact.trans hyRat⟩

/-- What is no number is left as it is. -/
theorem roundTiesEven_of_not_isFinite {x : Double} (h : x.isFinite = false) :
    x.roundTiesEven = x := by
  cases hvalue : x.value with
  | finite s m e =>
    rw [isFinite_of_value hvalue] at h
    cases h
  | nan | infinite s => rw [roundTiesEven, hvalue]

/-- Nothing is cut off a whole number. -/
theorem roundScaled_div_eq {m n : ℕ} (h : (m : ℚ) * 2 ^ e = n) : roundScaled (· / ·) m e = n := by
  obtain ⟨hpos, hscale⟩ := scaleTwo_eq m one_pos e
  rw [Nat.cast_one, div_one, h, div_eq_iff (Nat.cast_ne_zero.2 (Nat.ne_of_gt hpos))] at hscale
  have hmul : (scaleTwo m 1 e).1 = n * (scaleTwo m 1 e).2 := by exact_mod_cast hscale
  show (scaleTwo m 1 e).1 / (scaleTwo m 1 e).2 = n
  rw [hmul, Nat.mul_div_cancel _ hpos]

/-- A float that is a whole number is read as that number, within a range. -/
theorem truncate_of_toRat {fmt : Format} {x : Binary fmt} (lo hi : ℤ) (h : x.isFinite = true)
    (hk : x.toRat = k) : x.truncate lo hi = Max.max lo (min hi k) := by
  obtain ⟨m, e, hvalue⟩ := exists_value h
  rw [toRat_of_value hvalue] at hk
  have hmagnitude : (m : ℚ) * 2 ^ e = k.natAbs := by
    have habs := congrArg (|·|) hk
    rw [abs_withSign, abs_of_nonneg (by positivity)] at habs
    rw [habs, Nat.cast_natAbs, Int.cast_abs]
  rw [truncate, saturate, hvalue]
  dsimp only
  congr 2
  rw [roundScaled_div_eq hmagnitude]
  rw [hmagnitude, Nat.cast_natAbs] at hk
  cases hsign : x.negative with
  | false =>
    rw [hsign, withSign_false] at hk
    have hint : |k| = k := by exact_mod_cast hk
    rw [signed, if_neg (by decide), ← hint, Int.natCast_natAbs, abs_abs]
  | true =>
    rw [hsign, withSign_true] at hk
    have hint : -|k| = k := by exact_mod_cast hk
    rw [signed, if_pos rfl, Int.natCast_natAbs, hint]

end QuantClassifier.Binary
