import QuantClassifier.Binary.Arithmetic
import QuantClassifier.Proofs.Binary.Rounding

/-!
# Rounding what is a float already

A number that is a float is rounded to that float (`ofQuotient_of_value`). So a product with one is
the other factor (`mul_ofNat_one`), and single precision is a part of double precision: the way there
and back changes no number (`toSingle_toDouble`). Whole numbers of 64 bits stay finite in double
precision, and only zero becomes zero (`isFinite_ofInt`, `isZero_toSingle_ofInt`).
-/

namespace QuantClassifier

namespace Binary

variable {fmt : Format} {x : Binary fmt} {s : Bool} {m : Nat} {e : Int}

theorem value_finite (h : x.magnitude < fmt.infinity) : x.value =
    .finite x.negative (fmt.significand x.magnitude) (fmt.unitExponent x.magnitude) := by
  rw [value, if_neg (Nat.lt_asymm h), if_neg (Nat.ne_of_lt h)]

theorem value_eq_finite_iff : x.value = .finite s m e ↔ x.magnitude < fmt.infinity ∧
    x.negative = s ∧ fmt.significand x.magnitude = m ∧ fmt.unitExponent x.magnitude = e := by
  unfold value
  split
  next hnan => simp [Nat.lt_asymm hnan]
  next hnan =>
    split
    next heq => simp [heq]
    next hne =>
      have hlt : x.magnitude < fmt.infinity := by omega
      simp [hlt]

theorem eq_infinity_of_value (h : x.value = .infinite s) : x = infinity s := by
  obtain ⟨sign, n, hn⟩ := x
  unfold value at h
  split at h
  · simp at h
  · split at h
    next heq =>
      cases h
      subst heq
      rfl
    next => simp at h

theorem isZero_of_value (h : x.value = .finite s m e) : x.isZero = decide (m = 0) := by
  obtain ⟨-, -, rfl, -⟩ := value_eq_finite_iff.1 h
  have hpos : 0 < x.magnitude → 0 < fmt.significand x.magnitude := Format.significand_pos
  have hzero : fmt.significand 0 = 0 := if_pos fmt.hiddenBit_pos
  by_cases hx : x.magnitude = 0
  · simp [isZero, hx, hzero]
  · have hne : fmt.significand x.magnitude ≠ 0 := Nat.ne_of_gt (hpos (Nat.pos_of_ne_zero hx))
    simp [isZero, hx, hne]

theorem isZero_of_infinity_le (h : fmt.infinity ≤ x.magnitude) : x.isZero = false := by
  have hpos := fmt.infinity_pos
  exact decide_eq_false (by omega)

/-- A number that is a float is rounded to that float. -/
theorem ofQuotient_of_value (h : x.value = .finite s m e) : ofQuotient s m 1 e = x := by
  obtain ⟨hlt, rfl, rfl, rfl⟩ := value_eq_finite_iff.1 h
  obtain ⟨sign, n, hn⟩ := x
  simp only [ofQuotient, Format.roundMagnitude_of_lt_infinity hlt]

theorem ofQuotient_mul_two_pow (s : Bool) (m den k : Nat) (e : Int) :
    (ofQuotient s (m * 2 ^ k) den (e - k) : Binary fmt) = ofQuotient s m den e := by
  simp only [ofQuotient, fmt.roundMagnitude_mul_two_pow]

theorem ofQuotient_zero (s : Bool) (den : Nat) (e : Int) :
    (ofQuotient s 0 den e : Binary fmt) = zero s := by
  simp [ofQuotient, zero, Format.roundMagnitude]

theorem value_ofQuotient_of_isNormal (h : fmt.IsNormal m e)
    (hmax : e - fmt.minExponent + 3 ≤ ((2 ^ fmt.exponentBits : Nat) : Int)) :
    (ofQuotient s m 1 e : Binary fmt).value = .finite s m e := by
  have hlt := h.lt
  have hmin := h.min_le
  have hbound : (e - fmt.minExponent).toNat * fmt.hiddenBit + m < fmt.infinity := by
    have hsteps : (e - fmt.minExponent).toNat + 2 ≤ 2 ^ fmt.exponentBits - 1 := by omega
    have hmul := Nat.mul_le_mul_right fmt.hiddenBit hsteps
    rw [Nat.add_mul] at hmul
    calc (e - fmt.minExponent).toNat * fmt.hiddenBit + m
        < (e - fmt.minExponent).toNat * fmt.hiddenBit + 2 * fmt.hiddenBit := by omega
      _ ≤ fmt.infinity := hmul
  obtain ⟨hsignificand, hexponent⟩ := Format.significand_of_isNormal h
  apply value_eq_finite_iff.2
  have hmagnitude : (ofQuotient s m 1 e : Binary fmt).magnitude =
      (e - fmt.minExponent).toNat * fmt.hiddenBit + m := by
    show fmt.roundMagnitude m 1 e = _
    rw [Format.roundMagnitude_of_isNormal h, Nat.min_eq_right (Nat.le_of_lt hbound)]
  rw [hmagnitude]
  exact ⟨hbound, rfl, hsignificand, hexponent⟩

/-- A number of few enough bits in a unit of the format's range is a float. -/
theorem exists_value_ofQuotient (s : Bool) (hlt : m < 2 * fmt.hiddenBit)
    (hmin : fmt.minExponent ≤ e)
    (hmax : e - fmt.minExponent + 3 ≤ ((2 ^ fmt.exponentBits : Nat) : Int)) :
    ∃ k : Nat, (ofQuotient s m 1 e : Binary fmt).value = .finite s (m * 2 ^ k) (e - k) := by
  -- The significand is doubled until it has all its bits or the unit is the least one.
  induction hsteps : (e - fmt.minExponent).toNat generalizing m e with
  | zero =>
    have hleast : e = fmt.minExponent := by omega
    refine ⟨0, ?_⟩
    rw [Nat.pow_zero, Nat.mul_one, Int.natCast_zero, Int.sub_zero]
    exact value_ofQuotient_of_isNormal ⟨hlt, hmin, Or.inr hleast⟩ hmax
  | succ n ih =>
    by_cases hfull : fmt.hiddenBit ≤ m
    · refine ⟨0, ?_⟩
      rw [Nat.pow_zero, Nat.mul_one, Int.natCast_zero, Int.sub_zero]
      exact value_ofQuotient_of_isNormal ⟨hlt, hmin, Or.inl hfull⟩ hmax
    · obtain ⟨k, hk⟩ := ih (m := m * 2) (e := e - 1) (by omega) (by omega) (by omega) (by omega)
      refine ⟨k + 1, ?_⟩
      have hmul : m * 2 * 2 ^ k = m * 2 ^ (k + 1) := by
        rw [Nat.mul_assoc, ← Nat.pow_succ']
      have hsub : e - 1 - (k : Int) = e - ((k + 1 : Nat) : Int) := by omega
      rw [hmul, hsub] at hk
      rw [← hk]
      exact congrArg value (ofQuotient_mul_two_pow s m 1 1 e).symm

/-- A number times zero. -/
theorem exists_mul_zero (h : x.isFinite = true) (s : Bool) :
    ∃ s', x * zero s = (zero s' : Binary fmt) := by
  have hzero : (zero s : Binary fmt).value =
      .finite s (fmt.significand 0) (fmt.unitExponent 0) := value_finite fmt.infinity_pos
  have hsignificand : fmt.significand 0 = 0 := if_pos fmt.hiddenBit_pos
  refine ⟨x.negative != s, ?_⟩
  show mul x (zero s) = _
  rw [mul, value_finite (of_decide_eq_true h), hzero]
  simp only [hsignificand, Nat.mul_zero, ofQuotient_zero]

/-! ## Single and double precision -/

theorem minExponent_single : Format.single.minExponent = -149 := by decide

theorem minExponent_double : Format.double.minExponent = -1074 := by decide

/-- The double precision float of a single precision one stands for the same number. -/
theorem exists_value_toDouble {x : Single} (h : x.value = .finite s m e) :
    ∃ k : Nat, x.toDouble.value = .finite s (m * 2 ^ k) (e - k) := by
  obtain ⟨hfinite, rfl, rfl, rfl⟩ := value_eq_finite_iff.1 h
  have hnormal := Format.single.isNormal_significand x.magnitude
  have hlt := hnormal.lt
  have hmin := hnormal.min_le
  have hexponent := Format.unitExponent_le hfinite
  have hhidden : Format.single.hiddenBit ≤ Format.double.hiddenBit := by decide
  have hbits : ((2 ^ Format.double.exponentBits : Nat) : Int) = 2048 := by decide
  have hbitsSingle : ((2 ^ Format.single.exponentBits : Nat) : Int) = 256 := by decide
  rw [minExponent_single] at hmin hexponent
  rw [hbitsSingle] at hexponent
  have hvalue : x.toDouble = ofQuotient x.negative
      (Format.single.significand x.magnitude) 1 (Format.single.unitExponent x.magnitude) := by
    rw [toDouble, convert, value_finite hfinite]
  rw [hvalue]
  apply exists_value_ofQuotient
  · omega
  · rw [minExponent_double]
    omega
  · rw [minExponent_double, hbits]
    omega

/-- No number is changed on the way to double precision and back. -/
theorem toSingle_toDouble {x : Single} (h : x.isNaN = false) : x.toDouble.toSingle = x := by
  cases hvalue : x.value with
  | nan =>
    rw [value_eq_nan_iff.1 hvalue] at h
    cases h
  | infinite s =>
    have hdouble : x.toDouble = infinity s := by rw [toDouble, convert, hvalue]
    have hback : (infinity s : Double).value = .infinite s := by cases s <;> decide
    rw [hdouble, toSingle, convert, hback, eq_infinity_of_value hvalue]
  | finite s m e =>
    obtain ⟨k, hdouble⟩ := exists_value_toDouble hvalue
    rw [toSingle, convert, hdouble]
    show ofQuotient s (m * 2 ^ k) 1 (e - k) = x
    rw [ofQuotient_mul_two_pow, ofQuotient_of_value hvalue]

theorem infinity_le_magnitude_convertNaN {src : Format} (dst : Format) (x : Binary src) :
    dst.infinity ≤ (x.convertNaN dst).magnitude := by
  unfold convertNaN quiet
  dsimp only
  split <;> simp only <;> omega

/-- Only a zero becomes zero in double precision. -/
@[simp] theorem isZero_toDouble (x : Single) : x.toDouble.isZero = x.isZero := by
  cases hvalue : x.value with
  | nan =>
    have hnan : Format.single.infinity ≤ x.magnitude := by
      have h := value_eq_nan_iff.1 hvalue
      exact Nat.le_of_lt (of_decide_eq_true h)
    have hdouble : x.toDouble = x.convertNaN .double := by rw [toDouble, convert, hvalue]
    rw [hdouble, isZero_of_infinity_le hnan,
      isZero_of_infinity_le (infinity_le_magnitude_convertNaN .double x)]
  | infinite s =>
    have hdouble : x.toDouble = infinity s := by rw [toDouble, convert, hvalue]
    rw [hdouble, eq_infinity_of_value hvalue]
    cases s <;> decide
  | finite s m e =>
    obtain ⟨k, hdouble⟩ := exists_value_toDouble hvalue
    have hpow : 2 ^ k ≠ 0 := Nat.ne_of_gt (Nat.two_pow_pos k)
    rw [isZero_of_value hdouble, isZero_of_value hvalue]
    apply decide_eq_decide.2
    constructor
    · intro hmul
      exact (Nat.mul_eq_zero.1 hmul).resolve_right hpow
    · rintro rfl
      exact Nat.zero_mul _

/-- A number times one. -/
theorem mul_ofNat_one {x : Double} (h : x.isNaN = false) : x * ofNat 1 = x := by
  have hone : (ofNat 1 : Double).value = .finite false (2 ^ 52) ((0 : Int) - (52 : Nat)) := by decide
  show mul x (ofNat 1) = x
  cases hvalue : x.value with
  | nan =>
    rw [value_eq_nan_iff.1 hvalue] at h
    cases h
  | infinite s =>
    rw [mul, hvalue, hone]
    simp [eq_infinity_of_value hvalue]
  | finite s m e =>
    rw [mul, hvalue, hone]
    show ofQuotient (s != false) (m * 2 ^ 52) 1 (e + (0 - (52 : Nat))) = x
    have hexponent : e + ((0 : Int) - (52 : Nat)) = e - (52 : Nat) := by omega
    rw [hexponent, ofQuotient_mul_two_pow, Bool.bne_false, ofQuotient_of_value hvalue]

theorem isFinite_ofInt {n : Int} (h : n.natAbs < 2 ^ 64) : (ofInt n : Double).isFinite = true := by
  by_cases hn : n = 0
  · subst hn
    decide
  · have hnum : n.natAbs ≠ 0 := Int.natAbs_ne_zero.2 hn
    have hlog : n.natAbs.log2 < 64 := (Nat.log2_lt hnum).2 h
    have hle : Format.double.roundMagnitude n.natAbs 1 0 ≤ _ :=
      Format.roundMagnitude_le_of_log2 hnum
    have hbits : Format.double.fractionBits = 52 := rfl
    have hinfinity : Format.double.infinity = 2047 * Format.double.hiddenBit := by decide
    have hpos := Format.double.hiddenBit_pos
    rw [minExponent_double, hbits] at hle
    have hmul := Nat.le_trans hle (Nat.mul_le_mul_right _ (show _ ≤ 2046 by omega))
    apply decide_eq_true
    show Format.double.roundMagnitude n.natAbs 1 0 < Format.double.infinity
    rw [hinfinity]
    omega

/-- A whole number that goes through double precision becomes zero only if it is zero. -/
theorem isZero_toSingle_ofInt (n : Int) : (ofInt n : Double).toSingle.isZero = decide (n = 0) := by
  by_cases hn : n = 0
  · subst hn
    decide
  · have hnum : n.natAbs ≠ 0 := Int.natAbs_ne_zero.2 hn
    have hnan : (ofInt n : Double).isNaN = false := isNaN_ofQuotient ..
    rw [decide_eq_false hn]
    cases hvalue : (ofInt n : Double).value with
    | nan =>
      rw [value_eq_nan_iff.1 hvalue] at hnan
      cases hnan
    | infinite s =>
      have hsingle : (ofInt n : Double).toSingle = infinity s := by rw [toSingle, convert, hvalue]
      rw [hsingle]
      cases s <;> decide
    | finite s m e =>
      obtain ⟨hfinite, -, hsignificand, hexponent⟩ := value_eq_finite_iff.1 hvalue
      have hpos : 0 < m := by
        rw [← hsignificand]
        apply Format.significand_pos
        exact Format.roundMagnitude_pos hnum (by rw [minExponent_double]; decide)
      -- The unit of a whole number is far coarser than the finest one of single precision.
      have hunit := Format.le_unitExponent_roundMagnitude hnum hfinite
      have hone : Nat.log2 1 = 0 := by decide
      have hbits : Format.double.fractionBits = 52 := rfl
      have hsame : Format.double.unitExponent
          (Format.double.roundMagnitude n.natAbs 1 0) = e := hexponent
      have hsingle : (ofInt n : Double).toSingle = ofQuotient s m 1 e := by
        rw [toSingle, convert, hvalue]
      have hsinglePos : 0 < Format.single.roundMagnitude m 1 e := by
        apply Format.roundMagnitude_pos (Nat.ne_of_gt hpos)
        rw [minExponent_single]
        omega
      rw [hsingle]
      exact decide_eq_false (Nat.ne_of_gt hsinglePos)

end Binary

end QuantClassifier
