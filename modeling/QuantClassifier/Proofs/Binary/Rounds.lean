import Mathlib.Algebra.Order.Round
import Mathlib.Data.Rat.Floor
import QuantClassifier.Proofs.Binary.Nearest

/-!
# The nearest float

Every operation gives the float nearest to the exact result, the even one of two: the sum, the
product, the quotient and the change of format are all roundings (`rounds_add`, `rounds_mul`,
`rounds_div`, `rounds_convert`). Everything else that is used of a rounding follows from this
property. A float on one side of the exact number is on the same side of the rounding
(`Rounds.toRat_le`, `Rounds.le_toRat`), a float is its own rounding (`Rounds.toRat_eq`), the error is
at most half a unit (`Rounds.abs_error_le`), and half a unit of a number with all its digits is small
beside the number (`Rounds.abs_error_mul_le`).
-/

namespace QuantClassifier.Binary

variable {fmt : Format} {x y : Binary fmt} {a : ℚ} {e : ℤ}

/-- `x` is the rounding of a number: no float is nearer, of two equally near ones it is the even one,
and it keeps the sign of the number. Infinity is where the number after the largest finite one would
be. -/
structure Rounds (x : Binary fmt) (a : ℚ) : Prop where
  isNaN : x.isNaN = false
  nearest : ∀ y : Binary fmt, y.isNaN = false → |x.toRat - a| ≤ |y.toRat - a|
  even : ∀ y : Binary fmt, y.isNaN = false → y.toRat ≠ x.toRat →
    |x.toRat - a| = |y.toRat - a| → Even x.magnitude
  sign : a ≠ 0 → x.negative = decide (a < 0)

/-- Of the two signs of a magnitude the other one is as far from a number only if one of the two is
zero. -/
theorem eq_zero_of_abs_neg_sub {n b : ℚ} (hn : 0 ≤ n) (hb : 0 ≤ b) (h : |n - b| = |-n - b|) :
    n = 0 ∨ b = 0 := by
  rw [abs_of_nonpos (show -n - b ≤ 0 by linarith)] at h
  rcases le_total n b with hle | hle
  · rw [abs_of_nonpos (by linarith)] at h
    left
    linarith
  · rw [abs_of_nonneg (by linarith)] at h
    right
    linarith

theorem rounds_ofQuotient (fmt : Format) (s : Bool) (num : ℕ) {den : ℕ} (hden : 0 < den)
    (exponent : ℤ) :
    (ofQuotient s num den exponent : Binary fmt).Rounds
      (withSign s (num / den * 2 ^ exponent)) := by
  obtain ⟨unit, steps, hrounds⟩ := fmt.exists_roundsIn num hden exponent
  have hb : 0 ≤ (num : ℚ) / den * 2 ^ exponent := by positivity
  generalize (num : ℚ) / den * 2 ^ exponent = b at hrounds hb ⊢
  have hx : (ofQuotient s num den exponent : Binary fmt).toRat =
      withSign s (fmt.number (fmt.roundMagnitude num den exponent)) := rfl
  have hself : |(ofQuotient s num den exponent : Binary fmt).toRat - withSign s b| =
      |fmt.number (fmt.roundMagnitude num den exponent) - b| := by
    rw [hx, abs_withSign_sub_withSign]
  -- A float is at least as far as its magnitude is from the number without a sign.
  have hother : ∀ y : Binary fmt, |fmt.number y.magnitude - b| ≤ |y.toRat - withSign s b| := by
    intro y
    have hle := abs_abs_sub_abs_le y.toRat (withSign s b)
    rwa [abs_toRat, abs_withSign, abs_of_nonneg hb] at hle
  have hnearest : ∀ y : Binary fmt, y.isNaN = false →
      |fmt.number (fmt.roundMagnitude num den exponent) - b| ≤ |y.toRat - withSign s b| :=
    fun y hy => le_trans (hrounds.abs_sub_le_abs_sub (magnitude_le_infinity hy)) (hother y)
  refine ⟨isNaN_ofQuotient .., fun y hy => hself ▸ hnearest y hy, fun y hy hne heq => ?_,
    fun hsign => ?_⟩
  · rw [hself] at heq
    by_cases hmagnitude : y.magnitude = fmt.roundMagnitude num den exponent
    · exfalso
      have hn := fmt.number_nonneg (fmt.roundMagnitude num den exponent)
      have hsigns : y.negative = !s := by
        by_contra hsame
        exact hne (by rw [hx, toRat, hmagnitude, Bool.eq_not.not_left.1 hsame])
      have hy' : y.toRat = withSign s (-fmt.number (fmt.roundMagnitude num den exponent)) := by
        rw [toRat, hmagnitude, hsigns]
        cases s <;> simp
      rw [hy', abs_withSign_sub_withSign] at heq
      have hzero : fmt.number (fmt.roundMagnitude num den exponent) = 0 := by
        rcases eq_zero_of_abs_neg_sub hn hb heq with hzero | hzero
        · exact hzero
        · have hle := hnearest (zero false) isNaN_zero
          rw [toRat_zero, hzero] at hle
          simpa using hle
      apply hne
      rw [hy', hx, hzero, neg_zero]
    · rcases hrounds.lt_or_even (magnitude_le_infinity hy) hmagnitude with hlt | ⟨-, heven⟩
      · exact absurd (hother y) (not_le.2 (heq ▸ hlt))
      · exact heven
  · cases s with
    | false => exact (decide_eq_false (not_lt.2 hb)).symm
    | true =>
      have hpos : 0 < b := lt_of_le_of_ne hb fun h => hsign (by rw [← h]; simp)
      exact (decide_eq_true (by simpa using hpos)).symm

/-! ## What follows from being the nearest float -/

namespace Rounds

variable (h : x.Rounds a)

include h

theorem toRat_le (hy : y.isNaN = false) (hle : a ≤ y.toRat) : x.toRat ≤ y.toRat := by
  by_contra hlt
  have hnear := h.nearest y hy
  rw [abs_of_nonneg (by linarith), abs_of_nonneg (by linarith)] at hnear
  linarith

theorem le_toRat (hy : y.isNaN = false) (hle : y.toRat ≤ a) : y.toRat ≤ x.toRat := by
  by_contra hlt
  have hnear := h.nearest y hy
  rw [abs_of_nonpos (by linarith), abs_of_nonpos (by linarith)] at hnear
  linarith

theorem nonneg (ha : 0 ≤ a) : 0 ≤ x.toRat := by
  have hle := h.le_toRat (y := zero false) isNaN_zero (by rwa [toRat_zero])
  rwa [toRat_zero] at hle

/-- What is rounded to less than a float is less itself. -/
theorem lt_of_toRat_lt (hy : y.isNaN = false) (hlt : x.toRat < y.toRat) : a < y.toRat :=
  lt_of_not_ge fun hge => not_lt.2 (h.le_toRat hy hge) hlt

theorem toRat_eq (hy : y.isNaN = false) (heq : a = y.toRat) : x.toRat = y.toRat :=
  le_antisymm (h.toRat_le hy (le_of_eq heq)) (h.le_toRat hy (le_of_eq heq.symm))

theorem abs_toRat_le (hy : y.isNaN = false) (hle : |a| ≤ y.toRat) : |x.toRat| ≤ y.toRat := by
  obtain ⟨hlow, hhigh⟩ := abs_le.1 hle
  rw [← toRat_neg] at hlow
  have hneg := h.le_toRat (y := -y) hy hlow
  rw [toRat_neg] at hneg
  exact abs_le.2 ⟨hneg, h.toRat_le hy hhigh⟩

/-- In a unit in which the format holds a number the error is at most half a unit. -/
theorem abs_error_le (hmin : fmt.minExponent ≤ e)
    (hmax : e - fmt.minExponent + 3 ≤ ((2 ^ fmt.exponentBits : ℕ) : ℤ))
    (ha : |a| ≤ 2 * fmt.hiddenBit * 2 ^ e) : |x.toRat - a| ≤ 2 ^ e / 2 := by
  have hunit : (0 : ℚ) < 2 ^ e := zpow_pos two_pos _
  have hround := abs_sub_round (a / 2 ^ e)
  have hquotient : |a / 2 ^ e| ≤ 2 * fmt.hiddenBit := by
    rw [abs_div, abs_of_pos hunit]
    exact (div_le_iff₀ hunit).2 ha
  have hsteps : |round (a / 2 ^ e)| ≤ 2 * fmt.hiddenBit := by
    have htriangle := abs_sub_abs_le_abs_sub (round (a / 2 ^ e) : ℚ) (a / 2 ^ e)
    rw [abs_sub_comm] at htriangle
    have hlt : |(round (a / 2 ^ e) : ℚ)| < 2 * fmt.hiddenBit + 1 := by linarith
    exact Int.lt_add_one_iff.1 (by exact_mod_cast hlt)
  obtain ⟨y, hy, hyRat⟩ := exists_toRat_eq hsteps hmin hmax
  calc |x.toRat - a| ≤ |y.toRat - a| := h.nearest y hy
    _ = |a / 2 ^ e - round (a / 2 ^ e)| * 2 ^ e := by
      rw [hyRat, abs_mul_sub_eq hunit, abs_sub_comm]
    _ ≤ 1 / 2 * 2 ^ e := mul_le_mul_of_nonneg_right hround (le_of_lt hunit)
    _ = 2 ^ e / 2 := by ring

/-- Less than half a least unit away from a float, the rounding is that float. -/
theorem toRat_eq_of_abs_sub_lt (hfinite : x.isFinite = true) (hy : y.isFinite = true)
    (hlt : |y.toRat - a| < 2 ^ fmt.minExponent / 2) : x.toRat = y.toRat := by
  obtain ⟨k, hk⟩ := exists_leastSteps hfinite
  obtain ⟨j, hj⟩ := exists_leastSteps hy
  have hunit : (0 : ℚ) < 2 ^ fmt.minExponent := zpow_pos two_pos _
  have hnear := h.nearest y (isNaN_of_isFinite hy)
  have htriangle := abs_sub_le x.toRat a y.toRat
  rw [abs_sub_comm a] at htriangle
  have hless : |x.toRat - y.toRat| < 2 ^ fmt.minExponent := by linarith
  rw [hk, hj] at hless
  rw [hk, hj, eq_of_abs_mul_sub_mul_lt hunit hless]

/-- A number with all its digits is much larger than the error. -/
theorem abs_error_mul_le (hfull : fmt.hiddenBit * 2 ^ fmt.minExponent ≤ |a|)
    (hlt : |a| < fmt.number fmt.infinity) : |x.toRat - a| * (2 * fmt.hiddenBit) ≤ |a| := by
  rw [fmt.hiddenBit_mul_zpow] at hfull
  have hpos : 0 < |a| := lt_of_lt_of_le (zpow_pos two_pos _) hfull
  have hlow : (2 : ℚ) ^ Int.log 2 |a| ≤ |a| := by
    exact_mod_cast Int.zpow_log_le_self (R := ℚ) one_lt_two hpos
  have hhigh : |a| < (2 : ℚ) ^ (Int.log 2 |a| + 1) := by
    exact_mod_cast Int.lt_zpow_succ_log_self (R := ℚ) one_lt_two |a|
  generalize Int.log 2 |a| = lead at hlow hhigh
  obtain ⟨e, rfl⟩ : ∃ e : ℤ, lead = e + fmt.fractionBits := ⟨lead - fmt.fractionBits, by omega⟩
  have hmin : fmt.minExponent + fmt.fractionBits < e + fmt.fractionBits + 1 :=
    (zpow_lt_zpow_iff_right₀ one_lt_two).1 (lt_of_le_of_lt hfull hhigh)
  have hmax : e + fmt.fractionBits <
      fmt.minExponent + ((2 ^ fmt.exponentBits : ℕ) - 2 : ℤ) + fmt.fractionBits := by
    rw [fmt.number_infinity_eq_zpow] at hlt
    exact (zpow_lt_zpow_iff_right₀ one_lt_two).1 (lt_of_le_of_lt hlow hlt)
  rw [← fmt.hiddenBit_mul_zpow] at hlow
  rw [add_right_comm, ← fmt.hiddenBit_mul_zpow, zpow_add_one₀ two_ne_zero] at hhigh
  have herror := h.abs_error_le (e := e) (by omega) (by omega) (by linarith)
  have hhidden : (0 : ℚ) < fmt.hiddenBit := Nat.cast_pos.2 fmt.hiddenBit_pos
  calc |x.toRat - a| * (2 * fmt.hiddenBit) ≤ 2 ^ e / 2 * (2 * fmt.hiddenBit) :=
        mul_le_mul_of_nonneg_right herror (by positivity)
    _ = fmt.hiddenBit * 2 ^ e := by ring
    _ ≤ |a| := hlow

/-- The same for a whole number of the least units, however few. -/
theorem abs_error_mul_le_of_steps {k : ℤ} (hk : a = k * 2 ^ fmt.minExponent)
    (hlt : |a| < fmt.number fmt.infinity) : |x.toRat - a| * (2 * fmt.hiddenBit) ≤ |a| := by
  rcases le_or_gt (fmt.hiddenBit * 2 ^ fmt.minExponent : ℚ) |a| with hfull | hfew
  · exact h.abs_error_mul_le hfull hlt
  · -- So few least units are a float.
    have hunit : (0 : ℚ) < 2 ^ fmt.minExponent := zpow_pos two_pos _
    have hsteps : |k| ≤ 2 * fmt.hiddenBit := by
      rw [hk, abs_mul, abs_of_pos hunit, mul_lt_mul_iff_left₀ hunit] at hfew
      have hlt : |k| < fmt.hiddenBit := by exact_mod_cast hfew
      omega
    have hbits : 2 ^ 2 ≤ 2 ^ fmt.exponentBits :=
      Nat.pow_le_pow_right Nat.two_pos fmt.two_le_exponentBits
    obtain ⟨y, hy, hyRat⟩ := exists_toRat_eq hsteps (le_refl fmt.minExponent) (by omega)
    have hexact := h.toRat_eq hy (hk.trans hyRat.symm)
    rw [hexact, hyRat, ← hk, sub_self, abs_zero, zero_mul]
    exact abs_nonneg a

end Rounds

/-! ## Operations -/

theorem rounds_ofScaled (fmt : Format) (n e : ℤ) :
    (ofScaled n e : Binary fmt).Rounds (n * 2 ^ e) := by
  have hrounds := rounds_ofQuotient fmt (decide (n < 0)) n.natAbs one_pos e
  have hn : withSign (decide (n < 0)) ((n.natAbs : ℚ) / (1 : ℕ) * 2 ^ e) = n * 2 ^ e := by
    rw [Nat.cast_one, div_one, Nat.cast_natAbs]
    by_cases hneg : n < 0
    · simp [hneg, abs_of_neg hneg]
    · simp [hneg, abs_of_nonneg (not_lt.1 hneg)]
  rw [hn] at hrounds
  exact hrounds

theorem rounds_ofInt (fmt : Format) (n : ℤ) : (ofInt n : Binary fmt).Rounds n := by
  have hrounds := rounds_ofScaled fmt n 0
  rwa [zpow_zero, mul_one] at hrounds

theorem rounds_zero (s : Bool) : (zero s : Binary fmt).Rounds 0 where
  isNaN := isNaN_zero
  nearest y _ := by
    rw [toRat_zero, sub_self, abs_zero]
    exact abs_nonneg _
  even _ _ _ _ := Even.zero
  sign h := absurd rfl h

theorem rounds_convert (dst : Format) (h : x.isFinite = true) :
    (x.convert dst).Rounds x.toRat := by
  obtain ⟨m, e, hvalue⟩ := exists_value h
  have hrounds := rounds_ofQuotient dst x.negative m one_pos e
  rw [Nat.cast_one, div_one, ← toRat_of_value hvalue] at hrounds
  rw [convert, hvalue]
  exact hrounds

theorem rounds_mul (hx : x.isFinite = true) (hy : y.isFinite = true) :
    (x * y).Rounds (x.toRat * y.toRat) := by
  obtain ⟨m, e, hvalue⟩ := exists_value hx
  obtain ⟨m', e', hvalue'⟩ := exists_value hy
  have hrounds := rounds_ofQuotient fmt (x.negative != y.negative) (m * m') one_pos (e + e')
  have hproduct : x.toRat * y.toRat =
      withSign (x.negative != y.negative) (((m * m' : ℕ) : ℚ) / (1 : ℕ) * 2 ^ (e + e')) := by
    rw [toRat_of_value hvalue, toRat_of_value hvalue', zpow_add₀ two_ne_zero]
    cases x.negative <;> cases y.negative <;> simp <;> ring
  rw [hproduct]
  show (mul x y).Rounds _
  rw [mul, hvalue, hvalue']
  exact hrounds

theorem rounds_div (hx : x.isFinite = true) (hy : y.isFinite = true) (hne : y.toRat ≠ 0) :
    (x / y).Rounds (x.toRat / y.toRat) := by
  obtain ⟨m, e, hvalue⟩ := exists_value hx
  obtain ⟨m', e', hvalue'⟩ := exists_value hy
  have hm' : m' ≠ 0 := by
    rintro rfl
    apply hne
    rw [toRat_of_value hvalue', Nat.cast_zero, zero_mul]
    cases y.negative <;> simp
  have hrounds := rounds_ofQuotient fmt (x.negative != y.negative) m
    (Nat.pos_of_ne_zero hm') (e - e')
  have hquotient : x.toRat / y.toRat =
      withSign (x.negative != y.negative) ((m : ℚ) / m' * 2 ^ (e - e')) := by
    rw [toRat_of_value hvalue, toRat_of_value hvalue', zpow_sub₀ two_ne_zero]
    cases x.negative <;> cases y.negative <;> simp <;> field_simp
  rw [hquotient]
  show (div x y).Rounds _
  rw [div, hvalue, hvalue']
  simp only [if_neg hm']
  exact hrounds

theorem rounds_addFinite (s : Bool) (m : ℕ) (e : ℤ) (s' : Bool) (m' : ℕ) (e' : ℤ) :
    (addFinite s m e s' m' e' : Binary fmt).Rounds
      (withSign s (m * 2 ^ e) + withSign s' (m' * 2 ^ e')) := by
  have hsigned : ∀ (t : Bool) (n : ℕ) (d unit : ℤ), unit ≤ d → withSign t (n * 2 ^ d) =
      ((if t then -(n * Nat.pow 2 (d - unit).toNat : ℤ) else n * Nat.pow 2 (d - unit).toNat : ℤ) : ℚ) *
        2 ^ unit := by
    intro t n d unit hle
    rw [two_zpow_eq_natCast_mul hle]
    cases t <;> simp <;> ring
  rw [hsigned s m e _ (min_le_left e e'), hsigned s' m' e' _ (min_le_right e e'), ← add_mul,
    ← Int.cast_add]
  unfold addFinite
  dsimp only
  generalize (ite (s = true) _ _ + ite (s' = true) _ _ : ℤ) = sum
  split
  next hzero =>
    rw [hzero, Int.cast_zero, zero_mul]
    exact rounds_zero _
  next => exact rounds_ofScaled fmt _ _

theorem rounds_add (hx : x.isFinite = true) (hy : y.isFinite = true) :
    (x + y).Rounds (x.toRat + y.toRat) := by
  obtain ⟨m, e, hvalue⟩ := exists_value hx
  obtain ⟨m', e', hvalue'⟩ := exists_value hy
  rw [toRat_of_value hvalue, toRat_of_value hvalue']
  show (add x y).Rounds _
  rw [add, hvalue, hvalue']
  exact rounds_addFinite ..

/-- Infinity and a number. -/
theorem infinity_add (s : Bool) (h : y.isFinite = true) : infinity s + y = infinity s := by
  obtain ⟨m, e, hvalue⟩ := exists_value h
  show add (infinity s) y = infinity s
  rw [add, value_infinity, hvalue]

end QuantClassifier.Binary
