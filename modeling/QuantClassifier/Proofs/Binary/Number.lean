import Mathlib.Algebra.Order.Field.Power
import Mathlib.Algebra.Order.Ring.Rat
import Mathlib.Algebra.Field.Rat
import Mathlib.Tactic.Linarith
import Mathlib.Tactic.Positivity
import Mathlib.Tactic.Ring
import QuantClassifier.Proofs.Binary.Exactness

/-!
# The numbers of floats

Every magnitude up to that of infinity has a number, and the numbers grow with the magnitudes, one
unit at a time (`number_succ`, `number_strictMono`). Infinity counts as the number that would follow
the largest finite one: that is where rounding places it. With its sign a float has a rational
number (`toRat`), by which floats are ordered (`less_iff`). A finite float is a whole number of units
that is not too long (`exists_steps`), and each such number is that of some float
(`exists_toRat_eq`).
-/

namespace QuantClassifier

/-- A number with a sign. -/
def withSign (negative : Bool) (a : ℚ) : ℚ := if negative then -a else a

@[simp] theorem withSign_false (a : ℚ) : withSign false a = a := rfl

@[simp] theorem withSign_true (a : ℚ) : withSign true a = -a := rfl

@[simp] theorem abs_withSign (s : Bool) (a : ℚ) : |withSign s a| = |a| := by
  cases s <;> simp

theorem abs_withSign_sub_withSign (s : Bool) (a b : ℚ) :
    |withSign s a - withSign s b| = |a - b| := by
  cases s
  · rfl
  · rw [withSign_true, withSign_true, neg_sub_neg, abs_sub_comm]

/-- Whole numbers less than one apart are equal. -/
theorem eq_of_abs_sub_lt_one {k j : ℤ} (h : |(k : ℚ) - j| < 1) : k = j := by
  have hzero : k - j = 0 := Int.abs_lt_one_iff.1 (by exact_mod_cast h)
  omega

/-- Whole numbers of units less than a unit apart are equal. -/
theorem eq_of_abs_mul_sub_mul_lt {k j : ℤ} {unit : ℚ} (hunit : 0 < unit)
    (h : |k * unit - j * unit| < unit) : k = j := by
  apply eq_of_abs_sub_lt_one
  rw [← sub_mul, abs_mul, abs_of_pos hunit] at h
  apply lt_of_mul_lt_mul_right _ (le_of_lt hunit)
  rw [one_mul]
  exact h

/-- A distance is the distance in units. -/
theorem abs_mul_sub_eq {unit : ℚ} (hunit : 0 < unit) (c a : ℚ) :
    |c * unit - a| = |c - a / unit| * unit := by
  rw [← abs_of_pos hunit, ← abs_mul, abs_of_pos hunit, sub_mul, div_mul_cancel₀ _ (ne_of_gt hunit)]

/-- A number in a coarse unit is a whole multiple of every finer unit. -/
theorem two_zpow_eq_natCast_mul {d e : ℤ} (h : d ≤ e) :
    (2 : ℚ) ^ e = ((2 ^ (e - d).toNat : ℕ) : ℚ) * 2 ^ d := by
  have hsum : ((e - d).toNat : ℤ) + d = e := by omega
  rw [Nat.cast_pow, Nat.cast_ofNat, ← zpow_natCast, ← zpow_add₀ two_ne_zero,
    hsum]

namespace Format

variable {fmt : Format} {n magnitude : ℕ} {e : ℤ}

/-- The number that a magnitude stands for. -/
def number (fmt : Format) (magnitude : ℕ) : ℚ :=
  fmt.significand magnitude * 2 ^ fmt.unitExponent magnitude

/-- The magnitude of so many units, the first ones of a coarser unit included. -/
theorem number_unit_mul_add (hn : n ≤ 2 * fmt.hiddenBit) (hmin : fmt.minExponent ≤ e)
    (hfull : fmt.hiddenBit ≤ n ∨ e = fmt.minExponent) :
    fmt.number ((e - fmt.minExponent).toNat * fmt.hiddenBit + n) = n * 2 ^ e := by
  rcases Nat.lt_or_eq_of_le hn with hlt | rfl
  · obtain ⟨hsignificand, hexponent⟩ := significand_of_isNormal ⟨hlt, hmin, hfull⟩
    rw [number, hsignificand, hexponent]
  · -- Two hidden bits are one hidden bit of the next unit.
    have hpos := fmt.hiddenBit_pos
    have hcarry : (e - fmt.minExponent).toNat * fmt.hiddenBit + 2 * fmt.hiddenBit =
        (e + 1 - fmt.minExponent).toNat * fmt.hiddenBit + fmt.hiddenBit := by
      have hsteps : (e + 1 - fmt.minExponent).toNat = (e - fmt.minExponent).toNat + 1 := by omega
      rw [hsteps]
      ring
    have hnormal : fmt.IsNormal fmt.hiddenBit (e + 1) :=
      ⟨by omega, by omega, Or.inl (Nat.le_refl _)⟩
    obtain ⟨hsignificand, hexponent⟩ := significand_of_isNormal hnormal
    rw [hcarry, number, hsignificand, hexponent, zpow_add₀ two_ne_zero,
      zpow_one]
    push_cast
    ring

/-- From one magnitude to the next it is one unit. -/
theorem number_succ (fmt : Format) (magnitude : ℕ) :
    fmt.number (magnitude + 1) = fmt.number magnitude + 2 ^ fmt.unitExponent magnitude := by
  have hnormal := fmt.isNormal_significand magnitude
  have hsplit := fmt.unit_mul_add_significand magnitude
  have hlt := hnormal.lt
  have hnext := number_unit_mul_add (n := fmt.significand magnitude + 1) hlt hnormal.min_le
    (hnormal.full.imp_left fun h => by omega)
  rw [← Nat.add_assoc, hsplit] at hnext
  rw [hnext, number]
  push_cast
  ring

theorem number_strictMono (fmt : Format) : StrictMono fmt.number :=
  strictMono_nat_of_lt_succ fun magnitude => by
    have hunit : (0 : ℚ) < 2 ^ fmt.unitExponent magnitude := zpow_pos two_pos _
    rw [number_succ]
    linarith

@[simp] theorem number_zero (fmt : Format) : fmt.number 0 = 0 := by
  have hsignificand : fmt.significand 0 = 0 := if_pos fmt.hiddenBit_pos
  rw [number, hsignificand, Nat.cast_zero, zero_mul]

theorem number_nonneg (fmt : Format) (magnitude : ℕ) : 0 ≤ fmt.number magnitude := by
  rw [← fmt.number_zero]
  exact fmt.number_strictMono.monotone (Nat.zero_le magnitude)

/-- A number is less than the first full number of any coarser unit. -/
theorem number_lt_of_unitExponent_lt (h : fmt.unitExponent magnitude < e) :
    fmt.number magnitude < fmt.hiddenBit * 2 ^ e := by
  have hsignificand : (fmt.significand magnitude : ℚ) < 2 * fmt.hiddenBit := by
    exact_mod_cast (fmt.isNormal_significand magnitude).lt
  have hpow : (2 : ℚ) * 2 ^ fmt.unitExponent magnitude ≤ 2 ^ e := by
    rw [mul_comm, ← zpow_add_one₀ two_ne_zero]
    exact zpow_le_zpow_right₀ one_le_two h
  have hfine : (0 : ℚ) < 2 ^ fmt.unitExponent magnitude := zpow_pos two_pos _
  have hhidden : (0 : ℚ) < fmt.hiddenBit := Nat.cast_pos.2 fmt.hiddenBit_pos
  calc fmt.number magnitude < 2 * fmt.hiddenBit * 2 ^ fmt.unitExponent magnitude :=
        mul_lt_mul_of_pos_right hsignificand hfine
    _ = fmt.hiddenBit * (2 * 2 ^ fmt.unitExponent magnitude) := by ring
    _ ≤ fmt.hiddenBit * 2 ^ e := mul_le_mul_of_nonneg_left hpow (le_of_lt hhidden)

theorem number_lt_iff {m : ℕ} : fmt.number magnitude < fmt.number m ↔ magnitude < m :=
  fmt.number_strictMono.lt_iff_lt

theorem number_le_iff {m : ℕ} : fmt.number magnitude ≤ fmt.number m ↔ magnitude ≤ m :=
  fmt.number_strictMono.le_iff_le

/-- Infinity is one hidden bit of the unit after the last one. -/
theorem number_infinity (fmt : Format) : fmt.number fmt.infinity =
    fmt.hiddenBit * 2 ^ (fmt.minExponent + ((2 ^ fmt.exponentBits : ℕ) - 2 : ℤ)) := by
  have hpos := fmt.hiddenBit_pos
  have hbits : 2 ^ 2 ≤ 2 ^ fmt.exponentBits :=
    Nat.pow_le_pow_right Nat.two_pos fmt.two_le_exponentBits
  have hsteps : (fmt.minExponent + ((2 ^ fmt.exponentBits : ℕ) - 2 : ℤ) -
      fmt.minExponent).toNat = 2 ^ fmt.exponentBits - 2 := by omega
  have hsplit : fmt.infinity = (2 ^ fmt.exponentBits - 2) * fmt.hiddenBit + fmt.hiddenBit := by
    have hpred : 2 ^ fmt.exponentBits - 1 = 2 ^ fmt.exponentBits - 2 + 1 := by omega
    rw [infinity, Nat.pow_eq, hpred, Nat.succ_mul]
  have hnumber := number_unit_mul_add (n := fmt.hiddenBit)
    (e := fmt.minExponent + ((2 ^ fmt.exponentBits : ℕ) - 2 : ℤ)) (by omega) (by omega)
    (Or.inl (Nat.le_refl _))
  rw [hsteps, ← hsplit] at hnumber
  exact hnumber

end Format

namespace Binary

variable {fmt : Format} {x y : Binary fmt} {s : Bool} {m : ℕ} {e : ℤ}

/-- The number of a float. -/
def toRat (x : Binary fmt) : ℚ := withSign x.negative (fmt.number x.magnitude)

theorem toRat_of_value (h : x.value = .finite s m e) : x.toRat = withSign s (m * 2 ^ e) := by
  obtain ⟨-, rfl, rfl, rfl⟩ := value_eq_finite_iff.1 h
  rfl

theorem exists_value (h : x.isFinite = true) : ∃ m e, x.value = .finite x.negative m e :=
  ⟨_, _, value_finite (of_decide_eq_true h)⟩

theorem isFinite_of_value (h : x.value = .finite s m e) : x.isFinite = true :=
  decide_eq_true (value_eq_finite_iff.1 h).1

theorem isNaN_of_isFinite (h : x.isFinite = true) : x.isNaN = false :=
  decide_eq_false (Nat.lt_asymm (of_decide_eq_true h))

theorem isFinite_infinity (s : Bool) : (infinity s : Binary fmt).isFinite = false :=
  decide_eq_false (Nat.lt_irrefl _)

theorem isNaN_infinity (s : Bool) : (infinity s : Binary fmt).isNaN = false :=
  decide_eq_false (Nat.lt_irrefl _)

theorem value_infinity (s : Bool) : (infinity s : Binary fmt).value = .infinite s := by
  simp [value, infinity]

/-- A number that is not finite is an infinity. -/
theorem exists_eq_infinity (hnan : x.isNaN = false) (hfinite : x.isFinite = false) :
    ∃ s, x = infinity s := by
  cases hvalue : x.value with
  | nan =>
    rw [value_eq_nan_iff.1 hvalue] at hnan
    cases hnan
  | infinite s => exact ⟨s, eq_infinity_of_value hvalue⟩
  | finite s m e =>
    rw [isFinite_of_value hvalue] at hfinite
    cases hfinite

@[simp] theorem abs_toRat (x : Binary fmt) : |x.toRat| = fmt.number x.magnitude := by
  rw [toRat, abs_withSign, abs_of_nonneg (fmt.number_nonneg _)]

theorem isNaN_zero {s : Bool} : (zero s : Binary fmt).isNaN = false :=
  decide_eq_false (Nat.not_lt_zero _)

@[simp] theorem toRat_zero (s : Bool) : (zero s : Binary fmt).toRat = 0 := by
  cases s <;> simp [toRat, zero]

theorem toRat_eq_zero_iff : x.toRat = 0 ↔ x.isZero = true := by
  have hzero : fmt.number x.magnitude = 0 ↔ x.magnitude = 0 := by
    rw [← fmt.number_zero]
    exact fmt.number_strictMono.injective.eq_iff
  rw [← abs_eq_zero, abs_toRat, hzero]
  exact decide_eq_true_iff.symm

theorem toRat_neg (x : Binary fmt) : (-x).toRat = -x.toRat := by
  obtain ⟨sign, n, hn⟩ := x
  cases sign
  · rfl
  · show fmt.number n = -(-fmt.number n)
    ring

/-- A finite float is so many units of the format's range. -/
theorem exists_steps (h : x.isFinite = true) :
    ∃ k e : ℤ, |k| ≤ 2 * fmt.hiddenBit ∧ fmt.minExponent ≤ e ∧
      e - fmt.minExponent + 3 ≤ ((2 ^ fmt.exponentBits : ℕ) : ℤ) ∧ x.toRat = k * 2 ^ e := by
  have hnormal := fmt.isNormal_significand x.magnitude
  have hlt := hnormal.lt
  refine ⟨if x.negative then -fmt.significand x.magnitude else fmt.significand x.magnitude,
    fmt.unitExponent x.magnitude, ?_, hnormal.min_le,
    Format.unitExponent_le (of_decide_eq_true h), ?_⟩
  · cases x.negative
    · rw [if_neg Bool.false_ne_true, Nat.abs_cast]
      omega
    · rw [if_pos rfl, abs_neg, Nat.abs_cast]
      omega
  · rw [toRat, Format.number]
    cases x.negative <;> simp

/-- A finite float is so many least units. -/
theorem exists_leastSteps (h : x.isFinite = true) :
    ∃ k : ℤ, x.toRat = k * 2 ^ fmt.minExponent := by
  obtain ⟨k, e, -, hmin, -, hrat⟩ := exists_steps h
  refine ⟨k * (2 ^ (e - fmt.minExponent).toNat : ℕ), ?_⟩
  rw [hrat, two_zpow_eq_natCast_mul hmin]
  push_cast
  ring

/-- With either sign, magnitudes up to that of infinity are those of numbers. -/
theorem exists_toRat_eq_number (s : Bool) (h : m ≤ fmt.infinity) :
    ∃ y : Binary fmt, y.isNaN = false ∧ y.toRat = withSign s (fmt.number m) :=
  ⟨⟨s, m, Nat.lt_of_le_of_lt h fmt.infinity_lt⟩, decide_eq_false (Nat.not_lt.2 h), rfl⟩

theorem magnitude_le_infinity (h : x.isNaN = false) : x.magnitude ≤ fmt.infinity :=
  Nat.not_lt.1 (of_decide_eq_false h)

/-- Numbers up to the largest finite one are those of finite floats. -/
theorem isFinite_iff : x.isFinite = true ↔ |x.toRat| < fmt.number fmt.infinity := by
  rw [abs_toRat, Format.number_lt_iff]
  exact decide_eq_true_iff

/-- Floats are ordered by their numbers. -/
theorem less_iff (hx : x.isNaN = false) (hy : y.isNaN = false) :
    x.less y = true ↔ x.toRat < y.toRat := by
  have hkeys : x.less y = true ↔ x.orderKey < y.orderKey := by simp [less, hx, hy]
  rw [hkeys]
  obtain ⟨s, n, hn⟩ := x
  obtain ⟨s', n', hn'⟩ := y
  have hnonneg := fmt.number_nonneg n
  have hnonneg' := fmt.number_nonneg n'
  have hzero : ∀ k, fmt.number k ≤ 0 ↔ k = 0 := fun k => by
    rw [← fmt.number_zero, Format.number_le_iff, Nat.le_zero]
  cases s <;> cases s' <;> simp only [orderKey, toRat, withSign_false, withSign_true, if_true,
    Bool.false_eq_true, if_false]
  · rw [Format.number_lt_iff]
    omega
  · constructor <;> intro h
    · omega
    · linarith
  · constructor <;> intro h
    · -- Both numbers are zero only if both magnitudes are.
      have hne : ¬ (fmt.number n ≤ 0 ∧ fmt.number n' ≤ 0) := by
        rw [hzero, hzero]
        omega
      rcases not_and_or.1 hne with hne | hne <;> linarith
    · have hne : ¬ (n = 0 ∧ n' = 0) := by
        rintro ⟨rfl, rfl⟩
        simp at h
      omega
  · rw [neg_lt_neg_iff, neg_lt_neg_iff, Format.number_lt_iff]
    omega

/-- So many units of the format's range are the number of some float. -/
theorem exists_toRat_eq {k : ℤ} (hk : |k| ≤ 2 * fmt.hiddenBit) (hmin : fmt.minExponent ≤ e)
    (hmax : e - fmt.minExponent + 3 ≤ ((2 ^ fmt.exponentBits : ℕ) : ℤ)) :
    ∃ y : Binary fmt, y.isNaN = false ∧ y.toRat = k * 2 ^ e := by
  have hsign : (k : ℚ) = withSign (decide (k < 0)) k.natAbs := by
    rw [Nat.cast_natAbs]
    by_cases hneg : k < 0
    · simp [hneg, abs_of_neg hneg]
    · simp [hneg, abs_of_nonneg (not_lt.1 hneg)]
  have hscale : ∀ a : ℚ, withSign (decide (k < 0)) a * 2 ^ e =
      withSign (decide (k < 0)) (a * 2 ^ e) := fun a => by
    cases decide (k < 0) <;> simp
  rw [Int.abs_eq_natAbs] at hk
  rw [hsign, hscale]
  rcases Nat.lt_or_eq_of_le (show k.natAbs ≤ 2 * fmt.hiddenBit by omega) with hlt | heq
  · obtain ⟨j, hvalue⟩ := exists_value_ofQuotient (decide (k < 0)) hlt hmin hmax
    refine ⟨_, isNaN_of_isFinite (isFinite_of_value hvalue), ?_⟩
    have hshift : (2 : ℚ) ^ e = ((2 ^ j : ℕ) : ℚ) * 2 ^ (e - j) := by
      have hsub : (e - (e - j)).toNat = j := by omega
      rw [two_zpow_eq_natCast_mul (show e - j ≤ e by omega), hsub]
    rw [toRat_of_value hvalue, hshift]
    push_cast
    ring_nf
  · have hnumber := Format.number_unit_mul_add (n := k.natAbs) (Nat.le_of_eq heq) hmin
      (Or.inl (by omega))
    have hsteps : (e - fmt.minExponent).toNat + 2 ≤ 2 ^ fmt.exponentBits - 1 := by omega
    have hmul := Nat.mul_le_mul_right fmt.hiddenBit hsteps
    rw [← hnumber]
    apply exists_toRat_eq_number
    rw [heq, ← Nat.add_mul]
    exact hmul

end Binary

end QuantClassifier
