import Mathlib.Algebra.Group.Int.Defs
import Mathlib.Algebra.Group.Nat.Defs
import QuantClassifier.Binary.Rounding

/-!
# The rounding of magnitudes

Rounding depends on the exact number alone, not on how it is split into a numerator and a power of
two (`roundMagnitude_mul_two_pow`), and it leaves alone the magnitude of a float
(`roundMagnitude_of_lt_infinity`). What is not zero does not become zero as long as its unit is none
too fine (`roundMagnitude_pos`), and what is short does not become infinite
(`roundMagnitude_le_of_log2`).
-/

namespace QuantClassifier

/-! ## Quotients -/

@[simp] theorem roundHalfEven_one (n : Nat) : roundHalfEven n 1 = n := by
  simp [roundHalfEven, Nat.mod_one]

theorem roundHalfEven_mul (num den : Nat) {c : Nat} (hc : 0 < c) :
    roundHalfEven (num * c) (den * c) = roundHalfEven num den := by
  unfold roundHalfEven
  rw [Nat.mul_div_mul_right _ _ hc, Nat.mul_mod_mul_right]
  have hdouble : 2 * (num % den * c) = 2 * (num % den) * c := (Nat.mul_assoc ..).symm
  have hlt : 2 * (num % den) * c < den * c ↔ 2 * (num % den) < den := Nat.mul_lt_mul_right hc
  have heq : 2 * (num % den) * c = den * c ↔ 2 * (num % den) = den :=
    Nat.mul_left_inj (Nat.ne_of_gt hc)
  simp only [hdouble, hlt, heq]

theorem log2_mul_two_pow {n : Nat} (hn : n ≠ 0) (k : Nat) : (n * 2 ^ k).log2 = n.log2 + k := by
  induction k with
  | zero => simp
  | succ k ih =>
    have hsucc : n * 2 ^ (k + 1) = 2 * (n * 2 ^ k) := by
      rw [Nat.pow_succ, ← Nat.mul_assoc, Nat.mul_comm]
    rw [hsucc, Nat.log2_two_mul (Nat.mul_ne_zero hn (Nat.ne_of_gt (Nat.two_pow_pos k))), ih]
    rfl

/-- A power of two that moves from the exponent into the numerator widens the quotient. -/
theorem scaleTwo_mul_two_pow (num den k : Nat) (shift : Int) :
    ∃ c, 0 < c ∧ scaleTwo (num * 2 ^ k) den (shift - k) =
      ((scaleTwo num den shift).1 * c, (scaleTwo num den shift).2 * c) := by
  unfold scaleTwo
  by_cases hk : (k : Int) ≤ shift
  · have hsum : k + (shift - k).toNat = shift.toNat := by omega
    refine ⟨1, Nat.one_pos, ?_⟩
    rw [if_pos (by omega), if_pos (by omega)]
    simp only [Nat.pow_eq, Nat.mul_one, Nat.mul_assoc, ← Nat.pow_add, hsum]
  · by_cases hs : 0 ≤ shift
    · have hsum : shift.toNat + (-(shift - k)).toNat = k := by omega
      refine ⟨2 ^ (-(shift - k)).toNat, Nat.two_pow_pos _, ?_⟩
      rw [if_neg (by omega), if_pos hs]
      simp only [Nat.pow_eq, Nat.mul_assoc, ← Nat.pow_add, hsum]
    · have hsum : (-shift).toNat + k = (-(shift - k)).toNat := by omega
      refine ⟨2 ^ k, Nat.two_pow_pos k, ?_⟩
      rw [if_neg (by omega), if_neg hs]
      simp only [Nat.pow_eq, Nat.mul_assoc, ← Nat.pow_add, hsum]

/-- A number that is shifted to few enough bits. -/
theorem scaleTwo_div_lt {num bits : Nat} {shift : Int} (hnum : num ≠ 0)
    (h : (num.log2 : Int) + shift < bits) :
    (scaleTwo num 1 shift).1 / (scaleTwo num 1 shift).2 < 2 ^ bits := by
  unfold scaleTwo
  by_cases hs : 0 ≤ shift
  · have hlen : num.log2 + shift.toNat < bits := by omega
    have hlog := log2_mul_two_pow hnum shift.toNat
    have hpow : num * 2 ^ shift.toNat ≠ 0 := Nat.mul_ne_zero hnum (Nat.ne_of_gt (Nat.two_pow_pos _))
    rw [if_pos hs]
    simp only [Nat.pow_eq, Nat.div_one]
    rw [← Nat.log2_lt hpow, hlog]
    exact hlen
  · have hlen : num.log2 < bits + (-shift).toNat := by omega
    rw [if_neg hs]
    simp only [Nat.pow_eq, Nat.one_mul]
    rw [Nat.div_lt_iff_lt_mul (Nat.two_pow_pos _), ← Nat.pow_add, ← Nat.log2_lt hnum]
    exact hlen

theorem roundHalfEven_le (num den : Nat) : roundHalfEven num den ≤ num / den + 1 := by
  unfold roundHalfEven
  dsimp only
  split <;> omega

theorem scaleTwo_zero (num den : Nat) : scaleTwo num den 0 = (num, den) := by simp [scaleTwo]

namespace Format

variable {fmt : Format} {num den magnitude : Nat} {exponent : Int}

theorem infinity_pos (fmt : Format) : 0 < fmt.infinity := by
  have hbits : 2 ^ 1 ≤ 2 ^ fmt.exponentBits :=
    Nat.pow_le_pow_right Nat.two_pos (Nat.le_trans (by decide) fmt.two_le_exponentBits)
  exact Nat.mul_pos (Nat.sub_pos_of_lt hbits) fmt.hiddenBit_pos

theorem minExponent_le_roundingUnit (fmt : Format) (num den : Nat) (exponent : Int) :
    fmt.minExponent ≤ fmt.roundingUnit num den exponent := by
  unfold roundingUnit
  dsimp only
  split <;> omega

theorem lead_le_roundingUnit (fmt : Format) (num den : Nat) (exponent : Int) :
    (num.log2 : Int) - den.log2 + exponent - 1 - fmt.fractionBits ≤
      fmt.roundingUnit num den exponent := by
  unfold roundingUnit
  dsimp only
  split <;> omega

/-! ## Rounding depends on the number alone -/

theorem roundingUnit_mul_two_pow (fmt : Format) (hnum : num ≠ 0) (den k : Nat) (exponent : Int) :
    fmt.roundingUnit (num * 2 ^ k) den (exponent - k) = fmt.roundingUnit num den exponent := by
  have hlead : ((num.log2 + k : Nat) : Int) - den.log2 + (exponent - k) =
      num.log2 - den.log2 + exponent := by omega
  unfold roundingUnit
  simp only [log2_mul_two_pow hnum, hlead]
  generalize max fmt.minExponent _ = unit
  obtain ⟨c, hc, hscale⟩ := scaleTwo_mul_two_pow num den k (exponent - unit)
  have hshift : exponent - k - unit = exponent - unit - k := by omega
  rw [hshift, hscale]
  simp only [Nat.mul_div_mul_right _ _ hc]

theorem roundMagnitude_mul_two_pow (fmt : Format) (num den k : Nat) (exponent : Int) :
    fmt.roundMagnitude (num * 2 ^ k) den (exponent - k) = fmt.roundMagnitude num den exponent := by
  by_cases hnum : num = 0
  · simp [hnum, roundMagnitude]
  · have hpow : num * 2 ^ k ≠ 0 := Nat.mul_ne_zero hnum (Nat.ne_of_gt (Nat.two_pow_pos k))
    unfold roundMagnitude
    simp only [if_neg hnum, if_neg hpow, fmt.roundingUnit_mul_two_pow hnum]
    generalize fmt.roundingUnit num den exponent = unit
    obtain ⟨c, hc, hscale⟩ := scaleTwo_mul_two_pow num den k (exponent - unit)
    have hshift : exponent - k - unit = exponent - unit - k := by omega
    rw [hshift, hscale]
    simp only [roundHalfEven_mul _ _ hc]

/-- In the unit of its rounding a number is below two hidden bits. -/
theorem div_roundingUnit_lt (fmt : Format) (hnum : num ≠ 0) (exponent : Int) :
    (scaleTwo num 1 (exponent - fmt.roundingUnit num 1 exponent)).1 /
      (scaleTwo num 1 (exponent - fmt.roundingUnit num 1 exponent)).2 < 2 * fmt.hiddenBit := by
  have hone : Nat.log2 1 = 0 := by decide
  have hhidden : 2 ^ (fmt.fractionBits + 1) = 2 * fmt.hiddenBit := by
    rw [Nat.pow_succ, Nat.mul_comm]
    rfl
  unfold roundingUnit
  rw [hone]
  dsimp only
  split
  next hlt => exact hlt
  next =>
    rw [← hhidden]
    apply scaleTwo_div_lt hnum
    omega

/-- What has a unit no finer than the least one does not become zero. -/
theorem roundMagnitude_pos (hnum : num ≠ 0) (hmin : fmt.minExponent ≤ exponent) :
    0 < fmt.roundMagnitude num 1 exponent := by
  have hunit := fmt.minExponent_le_roundingUnit num 1 exponent
  have hinfinity := fmt.infinity_pos
  unfold roundMagnitude
  simp only [if_neg hnum]
  generalize fmt.roundingUnit num 1 exponent = unit at hunit ⊢
  rcases Int.lt_or_eq_of_le hunit with hlt | rfl
  · have hsteps : 0 < (unit - fmt.minExponent).toNat * fmt.hiddenBit :=
      Nat.mul_pos (by omega) fmt.hiddenBit_pos
    omega
  · -- In the least unit the number is whole, so nothing is rounded off.
    have hwhole : 0 < num * 2 ^ (exponent - fmt.minExponent).toNat :=
      Nat.mul_pos (Nat.pos_of_ne_zero hnum) (Nat.two_pow_pos _)
    have hscale : scaleTwo num 1 (exponent - fmt.minExponent) =
        (num * 2 ^ (exponent - fmt.minExponent).toNat, 1) := by
      rw [scaleTwo, if_pos (by omega)]
      rfl
    rw [hscale]
    simp only [roundHalfEven_one]
    omega

theorem le_unitExponent_roundMagnitude (hnum : num ≠ 0)
    (hfinite : fmt.roundMagnitude num den exponent < fmt.infinity) :
    (num.log2 : Int) - den.log2 + exponent - 2 - fmt.fractionBits ≤
      fmt.unitExponent (fmt.roundMagnitude num den exponent) := by
  have hlead := fmt.lead_le_roundingUnit num den exponent
  have hmin := fmt.minExponent_le_roundingUnit num den exponent
  unfold roundMagnitude at hfinite ⊢
  simp only [if_neg hnum] at hfinite ⊢
  generalize fmt.roundingUnit num den exponent = unit at hlead hmin hfinite ⊢
  generalize roundHalfEven _ _ = steps at hfinite ⊢
  rw [Nat.min_eq_right (by omega)]
  have hdiv : (unit - fmt.minExponent).toNat ≤
      ((unit - fmt.minExponent).toNat * fmt.hiddenBit + steps) / fmt.hiddenBit := by
    rw [Nat.le_div_iff_mul_le fmt.hiddenBit_pos]
    omega
  unfold unitExponent
  omega

theorem roundingUnit_le (fmt : Format) (num den : Nat) (exponent : Int) :
    fmt.roundingUnit num den exponent ≤
      max fmt.minExponent ((num.log2 : Int) - den.log2 + exponent - 1 - fmt.fractionBits) + 1 := by
  unfold roundingUnit
  dsimp only
  split <;> omega

/-- The magnitude grows with the length of the number. -/
theorem roundMagnitude_le_of_log2 (hnum : num ≠ 0) :
    fmt.roundMagnitude num 1 exponent ≤
      ((max fmt.minExponent ((num.log2 : Int) + exponent - 1 - fmt.fractionBits) + 1 -
        fmt.minExponent).toNat + 2) * fmt.hiddenBit := by
  have hunit := fmt.roundingUnit_le num 1 exponent
  have hquotient := fmt.div_roundingUnit_lt hnum exponent
  have hone : Nat.log2 1 = 0 := by decide
  rw [hone] at hunit
  unfold roundMagnitude
  simp only [if_neg hnum]
  generalize fmt.roundingUnit num 1 exponent = unit at hunit hquotient ⊢
  have hrounded := roundHalfEven_le (scaleTwo num 1 (exponent - unit)).1
    (scaleTwo num 1 (exponent - unit)).2
  generalize roundHalfEven _ _ = steps at hrounded ⊢
  have hsteps : (unit - fmt.minExponent).toNat ≤ (max fmt.minExponent
      ((num.log2 : Int) + exponent - 1 - fmt.fractionBits) + 1 - fmt.minExponent).toNat := by
    omega
  have hmul := Nat.mul_le_mul_right fmt.hiddenBit hsteps
  rw [Nat.add_mul]
  omega

/-! ## Floats round to themselves -/

/-- A significand and an exponent are those of a float: the significand has all its bits unless the
unit is the least one. -/
structure IsNormal (fmt : Format) (num : Nat) (exponent : Int) : Prop where
  lt : num < 2 * fmt.hiddenBit
  min_le : fmt.minExponent ≤ exponent
  full : fmt.hiddenBit ≤ num ∨ exponent = fmt.minExponent

theorem roundingUnit_of_isNormal (h : fmt.IsNormal num exponent) (hnum : num ≠ 0) :
    fmt.roundingUnit num 1 exponent = exponent := by
  obtain ⟨hlt, hmin, hfull⟩ := h
  have hbits : num.log2 < fmt.fractionBits + 1 := by
    rw [Nat.log2_lt hnum, Nat.pow_succ, Nat.mul_comm]
    exact hlt
  have hone : Nat.log2 1 = 0 := by decide
  unfold roundingUnit
  rw [hone]
  by_cases hleast : exponent = fmt.minExponent
  · have hunit : max fmt.minExponent ((num.log2 : Int) - (0 : Nat) + exponent - 1 -
        fmt.fractionBits) = exponent := by omega
    simp only [hunit, Int.sub_self, scaleTwo_zero, Nat.div_one, if_pos hlt]
  · have hhidden := hfull.resolve_right hleast
    have hfraction : fmt.fractionBits ≤ num.log2 := (Nat.le_log2 hnum).2 hhidden
    -- The first candidate is one too fine for a full significand.
    have hunit : max fmt.minExponent ((num.log2 : Int) - (0 : Nat) + exponent - 1 -
        fmt.fractionBits) = exponent - 1 := by omega
    have hshift : exponent - (exponent - 1) = 1 := by omega
    have hscale : scaleTwo num 1 1 = (num * 2, 1) := rfl
    have hlarge : ¬ num * 2 < 2 * fmt.hiddenBit := by omega
    simp only [hunit, hshift, hscale, Nat.div_one, if_neg hlarge]
    omega

theorem roundMagnitude_of_isNormal (h : fmt.IsNormal num exponent) :
    fmt.roundMagnitude num 1 exponent =
      min fmt.infinity ((exponent - fmt.minExponent).toNat * fmt.hiddenBit + num) := by
  by_cases hnum : num = 0
  · have hleast : exponent = fmt.minExponent := by
      have hpos := fmt.hiddenBit_pos
      have hfull := h.full
      omega
    simp [hnum, hleast, roundMagnitude]
  · unfold roundMagnitude
    simp only [if_neg hnum, roundingUnit_of_isNormal h hnum, Int.sub_self, scaleTwo_zero,
      roundHalfEven_one]

theorem isNormal_significand (fmt : Format) (magnitude : Nat) :
    fmt.IsNormal (fmt.significand magnitude) (fmt.unitExponent magnitude) := by
  have hpos := fmt.hiddenBit_pos
  have hmod := Nat.mod_lt magnitude hpos
  refine ⟨?_, ?_, ?_⟩
  · unfold significand
    split <;> omega
  · unfold unitExponent
    omega
  · unfold significand unitExponent
    split
    next hlt =>
      rw [Nat.div_eq_of_lt hlt]
      exact Or.inr (by simp)
    next => exact Or.inl (Nat.le_add_left ..)

theorem significand_pos (h : 0 < magnitude) : 0 < fmt.significand magnitude := by
  have hpos := fmt.hiddenBit_pos
  unfold significand
  split <;> omega

/-- A magnitude counts the units of its own exponent. -/
theorem unit_mul_add_significand (fmt : Format) (magnitude : Nat) :
    (fmt.unitExponent magnitude - fmt.minExponent).toNat * fmt.hiddenBit +
      fmt.significand magnitude = magnitude := by
  have hsteps : (fmt.unitExponent magnitude - fmt.minExponent).toNat =
      magnitude / fmt.hiddenBit - 1 := by
    unfold unitExponent
    omega
  have hdivMod := Nat.div_add_mod' magnitude fmt.hiddenBit
  rw [hsteps]
  unfold significand
  split
  next hlt => rw [Nat.div_eq_of_lt hlt, Nat.zero_sub, Nat.zero_mul, Nat.zero_add]
  next hge =>
    have hdiv : 1 ≤ magnitude / fmt.hiddenBit :=
      (Nat.one_le_div_iff fmt.hiddenBit_pos).2 (Nat.le_of_not_lt hge)
    have hone := Nat.mul_le_mul_right fmt.hiddenBit hdiv
    rw [Nat.sub_mul, Nat.one_mul]
    omega

/-- The units of finite magnitudes are those of the format's range. -/
theorem unitExponent_le (h : magnitude < fmt.infinity) :
    fmt.unitExponent magnitude - fmt.minExponent + 3 ≤ ((2 ^ fmt.exponentBits : Nat) : Int) := by
  have hdiv : magnitude / fmt.hiddenBit < 2 ^ fmt.exponentBits - 1 :=
    Nat.div_lt_of_lt_mul (Nat.mul_comm _ _ ▸ h)
  have hbits : 2 ^ 2 ≤ 2 ^ fmt.exponentBits :=
    Nat.pow_le_pow_right Nat.two_pos fmt.two_le_exponentBits
  rw [unitExponent]
  omega

theorem roundMagnitude_of_lt_infinity (h : magnitude < fmt.infinity) :
    fmt.roundMagnitude (fmt.significand magnitude) 1 (fmt.unitExponent magnitude) = magnitude := by
  rw [roundMagnitude_of_isNormal (fmt.isNormal_significand magnitude),
    fmt.unit_mul_add_significand]
  exact Nat.min_eq_right (Nat.le_of_lt h)

theorem significand_of_isNormal (h : fmt.IsNormal num exponent) :
    fmt.significand ((exponent - fmt.minExponent).toNat * fmt.hiddenBit + num) = num ∧
      fmt.unitExponent ((exponent - fmt.minExponent).toNat * fmt.hiddenBit + num) = exponent := by
  obtain ⟨hlt, hmin, hfull⟩ := h
  have hpos := fmt.hiddenBit_pos
  by_cases hhidden : fmt.hiddenBit ≤ num
  · obtain ⟨rest, rfl⟩ := Nat.exists_eq_add_of_le hhidden
    have hrest : rest < fmt.hiddenBit := by omega
    have hsplit : (exponent - fmt.minExponent).toNat * fmt.hiddenBit + (fmt.hiddenBit + rest) =
        rest + ((exponent - fmt.minExponent).toNat + 1) * fmt.hiddenBit := by
      rw [Nat.succ_mul]
      omega
    have hge : ¬ rest + ((exponent - fmt.minExponent).toNat + 1) * fmt.hiddenBit <
        fmt.hiddenBit := by
      rw [Nat.succ_mul]
      omega
    rw [hsplit]
    constructor
    · rw [significand, if_neg hge, Nat.add_mul_mod_self_right, Nat.mod_eq_of_lt hrest]
      omega
    · rw [unitExponent, Nat.add_mul_div_right _ _ hpos, Nat.div_eq_of_lt hrest]
      omega
  · have hleast := hfull.resolve_left hhidden
    have hnum : num < fmt.hiddenBit := by omega
    subst hleast
    rw [Int.sub_self]
    simp only [Int.toNat_zero, Nat.zero_mul, Nat.zero_add]
    exact ⟨if_pos hnum, by simp [unitExponent, Nat.div_eq_of_lt hnum]⟩

end Format

end QuantClassifier
