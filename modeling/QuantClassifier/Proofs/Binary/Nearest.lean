import Mathlib.Algebra.Order.Group.Abs
import Mathlib.Data.Int.Log
import Mathlib.Tactic.FieldSimp
import Mathlib.Tactic.GCongr
import QuantClassifier.Proofs.Binary.Number

/-!
# The nearest magnitude

`roundHalfEven` gives the whole number nearest to a quotient, the even one of two
(`isNearestEven_roundHalfEven`). `Format.roundMagnitude` rounds to a whole number of units in this
way, in the finest unit in which the format holds the number (`exists_roundsIn`). So no other
magnitude up to that of infinity has a nearer number, and of two equally near ones the rounding takes
the even one (`RoundsIn.lt_or_even`).
-/

namespace QuantClassifier

/-! ## The nearest whole number -/

/-- `k` is the whole number nearest to `a`, the even one of two. -/
structure IsNearestEven (a : ℚ) (k : ℤ) : Prop where
  near : |k - a| ≤ 1 / 2
  even : |k - a| = 1 / 2 → Even k

namespace IsNearestEven

variable {a : ℚ} {k j : ℤ}

/-- Another whole number is farther, or as far and `k` is even. -/
theorem lt_or_even (h : IsNearestEven a k) (hne : j ≠ k) :
    |k - a| < |j - a| ∨ |k - a| = |j - a| ∧ Even k := by
  have hnear := h.near
  have hone : (1 : ℚ) ≤ |(j : ℚ) - k| := not_lt.1 fun hlt => hne (eq_of_abs_sub_lt_one hlt)
  have htriangle := abs_sub_le (j : ℚ) a k
  rw [abs_sub_comm a k] at htriangle
  rcases lt_or_eq_of_le (show |k - a| ≤ |(j : ℚ) - a| by linarith) with hlt | heq
  · exact Or.inl hlt
  · exact Or.inr ⟨heq, h.even (by linarith)⟩

theorem abs_sub_le_abs_sub (h : IsNearestEven a k) (j : ℤ) : |k - a| ≤ |j - a| := by
  by_cases hne : j = k
  · rw [hne]
  · rcases h.lt_or_even hne with hlt | ⟨heq, -⟩
    · exact le_of_lt hlt
    · exact le_of_eq heq

/-- A number next to a whole one rounds to it. -/
theorem eq_of_abs_sub_lt (h : IsNearestEven a k) (hj : |j - a| < 1 / 2) : k = j := by
  have htriangle := abs_sub_le (k : ℚ) a j
  have hnear := h.near
  rw [abs_sub_comm a j] at htriangle
  apply eq_of_abs_sub_lt_one
  linarith

theorem neg (h : IsNearestEven a k) : IsNearestEven (-a) (-k) := by
  have habs : |((-k : ℤ) : ℚ) - -a| = |k - a| := by
    rw [Int.cast_neg, ← abs_neg]
    congr 1
    ring
  exact ⟨habs ▸ h.near, fun heq => (h.even (habs ▸ heq)).neg⟩

/-- The nearest whole numbers are in the order of the numbers. -/
theorem le_of_le {b : ℚ} (hk : IsNearestEven a k) (hj : IsNearestEven b j) (hab : a ≤ b) :
    k ≤ j := by
  obtain ⟨-, hkHigh⟩ := abs_le.1 hk.near
  obtain ⟨hjLow, -⟩ := abs_le.1 hj.near
  by_contra hgt
  have hnext : (j : ℚ) + 1 ≤ k := by exact_mod_cast Int.add_one_le_of_lt (lt_of_not_ge hgt)
  -- They can only be crossed one apart, with the numbers in the middle, and then both are even.
  have hmiddle : (k : ℚ) - a = 1 / 2 := by linarith
  have hmiddle' : (j : ℚ) - b = -(1 / 2) := by linarith
  obtain ⟨n, hn⟩ := hk.even (by rw [hmiddle, abs_of_pos (by norm_num)])
  obtain ⟨m, hm⟩ := hj.even (by rw [hmiddle', abs_neg, abs_of_pos (by norm_num)])
  have hone : k = j + 1 := by
    have hcast : (k : ℚ) = j + 1 := by linarith
    exact_mod_cast hcast
  omega

end IsNearestEven

theorem isNearestEven_roundHalfEven (num : ℕ) {den : ℕ} (hden : 0 < den) :
    IsNearestEven (num / den) (roundHalfEven num den) := by
  have hdenRat : (0 : ℚ) < den := Nat.cast_pos.2 hden
  have hquotient : (num : ℚ) / den = (num / den : ℕ) + (num % den : ℕ) / den := by
    field_simp
    exact_mod_cast (Nat.div_add_mod num den).symm
  have hnonneg : 0 ≤ ((num % den : ℕ) : ℚ) / den := by positivity
  have hlt : ((num % den : ℕ) : ℚ) / den < 1 := by
    rw [div_lt_one hdenRat]
    exact_mod_cast Nat.mod_lt num hden
  have hhalf : 2 * (num % den) < den ↔ ((num % den : ℕ) : ℚ) / den < 1 / 2 := by
    rw [div_lt_iff₀ hdenRat, ← Nat.cast_lt (α := ℚ)]
    push_cast
    constructor <;> intro h <;> linarith
  have htie : 2 * (num % den) = den ↔ ((num % den : ℕ) : ℚ) / den = 1 / 2 := by
    rw [div_eq_iff (ne_of_gt hdenRat), ← Nat.cast_inj (R := ℚ)]
    push_cast
    constructor <;> intro h <;> linarith
  unfold roundHalfEven
  rw [hquotient]
  simp only [hhalf, htie]
  generalize ((num % den : ℕ) : ℚ) / den = f at *
  generalize num / den = q
  split
  next hdown =>
    have hdist : |((q : ℤ) : ℚ) - (q + f)| = f := by
      rw [Int.cast_natCast, sub_add_cancel_left, abs_neg, abs_of_nonneg hnonneg]
    refine ⟨?_, fun heq => ?_⟩
    · rcases hdown with hdown | ⟨hdown, -⟩ <;> linarith
    · rw [hdist] at heq
      rcases hdown with hdown | ⟨-, heven⟩
      · linarith
      · exact_mod_cast Nat.even_iff.2 heven
  next hup =>
    have hge : 1 / 2 ≤ f := not_lt.1 fun h => hup (Or.inl h)
    have hdist : |(((q + 1 : ℕ) : ℤ) : ℚ) - (q + f)| = 1 - f := by
      rw [Int.cast_natCast, Nat.cast_succ, add_sub_add_left_eq_sub, abs_of_nonneg (by linarith)]
    refine ⟨by linarith, fun heq => ?_⟩
    rw [hdist] at heq
    have hodd : ¬ q % 2 = 0 := fun h => hup (Or.inr ⟨by linarith, h⟩)
    have heven : Even (q + 1) := Nat.even_iff.2 (by omega)
    exact_mod_cast heven

/-! ## The nearest magnitude -/

theorem scaleTwo_eq (num : ℕ) {den : ℕ} (hden : 0 < den) (shift : ℤ) :
    0 < (scaleTwo num den shift).2 ∧
      ((scaleTwo num den shift).1 : ℚ) / (scaleTwo num den shift).2 = num / den * 2 ^ shift := by
  have hdenRat : (den : ℚ) ≠ 0 := Nat.cast_ne_zero.2 (Nat.ne_of_gt hden)
  unfold scaleTwo
  split
  next hshift =>
    refine ⟨hden, ?_⟩
    have hpow : (2 : ℚ) ^ shift = 2 ^ shift.toNat := by
      rw [← zpow_natCast, Int.toNat_of_nonneg hshift]
    rw [hpow]
    simp only [Nat.pow_eq]
    push_cast
    field_simp
  next hshift =>
    refine ⟨Nat.mul_pos hden (Nat.two_pow_pos _), ?_⟩
    have hpow : (2 : ℚ) ^ shift = (2 ^ (-shift).toNat)⁻¹ := by
      rw [← zpow_natCast, Int.toNat_of_nonneg (by omega), zpow_neg, inv_inv]
    rw [hpow]
    simp only [Nat.pow_eq]
    push_cast
    field_simp

namespace Format

variable {fmt : Format} {a : ℚ} {unit : ℤ} {steps magnitude : ℕ}

/-- A number of units that is rounded: the unit is the finest one in which the format holds it. -/
structure RoundsIn (fmt : Format) (a : ℚ) (unit : ℤ) (steps magnitude : ℕ) : Prop where
  min_le : fmt.minExponent ≤ unit
  lt : a < 2 * fmt.hiddenBit * 2 ^ unit
  full : fmt.hiddenBit * 2 ^ unit ≤ a ∨ unit = fmt.minExponent
  nearest : IsNearestEven (a / 2 ^ unit) steps
  magnitude_eq :
    magnitude = min fmt.infinity ((unit - fmt.minExponent).toNat * fmt.hiddenBit + steps)

theorem hiddenBit_eq (fmt : Format) : (fmt.hiddenBit : ℚ) = 2 ^ fmt.fractionBits := by
  simp [hiddenBit]

/-- In any unit the hidden bit is a power of two. -/
theorem hiddenBit_mul_zpow (fmt : Format) (unit : ℤ) :
    (fmt.hiddenBit : ℚ) * 2 ^ unit = 2 ^ (unit + fmt.fractionBits) := by
  rw [zpow_add₀ two_ne_zero, zpow_natCast, hiddenBit_eq, mul_comm]

theorem number_infinity_eq_zpow (fmt : Format) : fmt.number fmt.infinity =
    2 ^ (fmt.minExponent + ((2 ^ fmt.exponentBits : ℕ) - 2 : ℤ) + fmt.fractionBits) := by
  rw [number_infinity, hiddenBit_mul_zpow]

/-- The lengths of numerator and denominator enclose a quotient. -/
theorem lead_bounds {num den : ℕ} (hnum : num ≠ 0) (hden : 0 < den) (exponent : ℤ) :
    (2 : ℚ) ^ ((num.log2 : ℤ) - den.log2 + exponent - 1) < num / den * 2 ^ exponent ∧
      num / den * 2 ^ exponent < (2 : ℚ) ^ ((num.log2 : ℤ) - den.log2 + exponent + 1) := by
  have hdenRat : (0 : ℚ) < den := Nat.cast_pos.2 hden
  have hexponent : (0 : ℚ) < 2 ^ exponent := zpow_pos two_pos _
  have hnumLow : (2 : ℚ) ^ num.log2 ≤ num := by exact_mod_cast Nat.log2_self_le hnum
  have hnumHigh : (num : ℚ) < 2 ^ (num.log2 + 1) := by exact_mod_cast Nat.lt_log2_self
  have hdenLow : (2 : ℚ) ^ den.log2 ≤ den := by
    exact_mod_cast Nat.log2_self_le (Nat.ne_of_gt hden)
  have hdenHigh : (den : ℚ) < 2 ^ (den.log2 + 1) := by exact_mod_cast Nat.lt_log2_self
  have hlow : (2 : ℚ) ^ ((num.log2 : ℤ) - den.log2 + exponent - 1) =
      2 ^ num.log2 / 2 ^ (den.log2 + 1) * 2 ^ exponent := by
    rw [← zpow_natCast, ← zpow_natCast, ← zpow_sub₀ two_ne_zero, ← zpow_add₀ two_ne_zero]
    congr 1
    push_cast
    ring
  have hhigh : (2 : ℚ) ^ ((num.log2 : ℤ) - den.log2 + exponent + 1) =
      2 ^ (num.log2 + 1) / 2 ^ den.log2 * 2 ^ exponent := by
    rw [← zpow_natCast, ← zpow_natCast, ← zpow_sub₀ two_ne_zero, ← zpow_add₀ two_ne_zero]
    congr 1
    push_cast
    ring
  rw [hlow, hhigh]
  constructor
  · apply mul_lt_mul_of_pos_right _ hexponent
    rw [div_lt_div_iff₀ (by positivity) hdenRat]
    exact mul_lt_mul' hnumLow hdenHigh (le_of_lt hdenRat) (by positivity)
  · apply mul_lt_mul_of_pos_right _ hexponent
    rw [div_lt_div_iff₀ hdenRat (by positivity)]
    exact mul_lt_mul hnumHigh hdenLow (by positivity) (by positivity)

theorem roundingUnit_bounds (fmt : Format) {num den : ℕ} (hnum : num ≠ 0) (hden : 0 < den)
    (exponent : ℤ) :
    num / den * 2 ^ exponent < 2 * fmt.hiddenBit * (2 : ℚ) ^ fmt.roundingUnit num den exponent ∧
      (fmt.hiddenBit * (2 : ℚ) ^ fmt.roundingUnit num den exponent ≤ num / den * 2 ^ exponent ∨
        fmt.roundingUnit num den exponent = fmt.minExponent) := by
  obtain ⟨hlow, hhigh⟩ := lead_bounds hnum hden exponent
  unfold roundingUnit
  dsimp only
  generalize (num.log2 : ℤ) - den.log2 + exponent = lead at hlow hhigh ⊢
  obtain ⟨unit, hunit⟩ : ∃ unit, unit = max fmt.minExponent (lead - 1 - fmt.fractionBits) :=
    ⟨_, rfl⟩
  rw [← hunit]
  obtain ⟨hpos, hscale⟩ := scaleTwo_eq num hden (exponent - unit)
  have hquotient : (num : ℚ) / den * 2 ^ exponent = num / den * 2 ^ (exponent - unit) * 2 ^ unit := by
    rw [mul_assoc, ← zpow_add₀ two_ne_zero, sub_add_cancel]
  have hunitPos : (0 : ℚ) < 2 ^ unit := zpow_pos two_pos _
  have hfits : (scaleTwo num den (exponent - unit)).1 / (scaleTwo num den (exponent - unit)).2 <
      2 * fmt.hiddenBit ↔ num / den * 2 ^ exponent < 2 * fmt.hiddenBit * (2 : ℚ) ^ unit := by
    rw [hquotient, mul_lt_mul_iff_left₀ hunitPos, ← hscale, div_lt_iff₀ (Nat.cast_pos.2 hpos),
      Nat.div_lt_iff_lt_mul hpos]
    exact_mod_cast Iff.rfl
  split
  next hlt =>
    refine ⟨hfits.1 hlt, ?_⟩
    by_cases hleast : unit = fmt.minExponent
    · exact Or.inr hleast
    · have hlead : unit + fmt.fractionBits = lead - 1 := by omega
      rw [fmt.hiddenBit_mul_zpow, hlead]
      exact Or.inl (le_of_lt hlow)
  next hge =>
    -- The first candidate is too fine, so the number has all its digits in the second.
    have hlarge := not_lt.1 (mt hfits.2 hge)
    rw [zpow_add_one₀ two_ne_zero]
    constructor
    · have hlead : (2 : ℚ) ^ (lead + 1) ≤ 2 ^ (unit + fmt.fractionBits + 2) :=
        zpow_le_zpow_right₀ one_le_two (by omega)
      rw [zpow_add₀ two_ne_zero (unit + _), ← fmt.hiddenBit_mul_zpow] at hlead
      norm_num at hlead
      linarith
    · left
      linarith

/-- Every magnitude that is made by rounding is made in some unit. -/
theorem exists_roundsIn (fmt : Format) (num : ℕ) {den : ℕ} (hden : 0 < den) (exponent : ℤ) :
    ∃ unit steps, fmt.RoundsIn (num / den * 2 ^ exponent) unit steps
      (fmt.roundMagnitude num den exponent) := by
  by_cases hnum : num = 0
  · subst hnum
    have hpos : (0 : ℚ) < fmt.hiddenBit := Nat.cast_pos.2 fmt.hiddenBit_pos
    have hunit : (0 : ℚ) < 2 ^ fmt.minExponent := zpow_pos two_pos _
    refine ⟨fmt.minExponent, 0, le_refl _, ?_, Or.inr rfl, ⟨?_, ?_⟩, ?_⟩
    · simpa using mul_pos (mul_pos two_pos hpos) hunit
    · simp
    · simp
    · simp [roundMagnitude]
  · obtain ⟨hlt, hfull⟩ := fmt.roundingUnit_bounds hnum hden exponent
    have hmin := fmt.minExponent_le_roundingUnit num den exponent
    unfold roundMagnitude
    simp only [if_neg hnum]
    generalize fmt.roundingUnit num den exponent = unit at hlt hfull hmin ⊢
    obtain ⟨hpos, hscale⟩ := scaleTwo_eq num hden (exponent - unit)
    refine ⟨unit, _, hmin, hlt, hfull, ?_, rfl⟩
    have hquotient : num / den * 2 ^ exponent / (2 : ℚ) ^ unit =
        (scaleTwo num den (exponent - unit)).1 / (scaleTwo num den (exponent - unit)).2 := by
      rw [hscale, zpow_sub₀ two_ne_zero, mul_div_assoc]
    rw [hquotient]
    exact isNearestEven_roundHalfEven _ hpos

namespace RoundsIn

variable (h : fmt.RoundsIn a unit steps magnitude)

include h

theorem steps_bounds : steps ≤ 2 * fmt.hiddenBit ∧
    (fmt.hiddenBit ≤ steps ∨ unit = fmt.minExponent) := by
  have hunit : (0 : ℚ) < 2 ^ unit := zpow_pos two_pos _
  have hnear := abs_le.1 h.nearest.near
  have hbound : ∀ n : ℕ, (n : ℚ) ≤ a / 2 ^ unit → n ≤ steps := fun n hn => by
    by_contra hlt
    have hnext : (steps : ℚ) + 1 ≤ n := by exact_mod_cast Nat.succ_le_of_lt (not_le.1 hlt)
    push_cast at hnear
    linarith
  have hlt : a / 2 ^ unit < 2 * fmt.hiddenBit := (div_lt_iff₀ hunit).2 h.lt
  refine ⟨?_, h.full.imp_left fun hfull => hbound _ ((le_div_iff₀ hunit).2 hfull)⟩
  by_contra hgt
  have hnext : 2 * (fmt.hiddenBit : ℚ) + 1 ≤ steps := by
    exact_mod_cast Nat.succ_le_of_lt (not_le.1 hgt)
  push_cast at hnear
  linarith

theorem number_steps : fmt.number ((unit - fmt.minExponent).toNat * fmt.hiddenBit + steps) =
    steps * 2 ^ unit :=
  number_unit_mul_add h.steps_bounds.1 h.min_le h.steps_bounds.2

/-- Among all magnitudes, with no end, the rounded number of units is the nearest one. -/
theorem steps_lt_or_even {other : ℕ}
    (hne : other ≠ (unit - fmt.minExponent).toNat * fmt.hiddenBit + steps) :
    |steps * 2 ^ unit - a| < |fmt.number other - a| ∨
      |steps * 2 ^ unit - a| = |fmt.number other - a| ∧
        Even ((unit - fmt.minExponent).toNat * fmt.hiddenBit + steps) := by
  have hunit : (0 : ℚ) < 2 ^ unit := zpow_pos two_pos _
  have hhidden : Even fmt.hiddenBit := by
    rw [hiddenBit, Nat.pow_eq, Nat.even_pow]
    exact ⟨even_two, Nat.ne_of_gt fmt.fractionBits_pos⟩
  by_cases hcoarse : unit ≤ fmt.unitExponent other
  · -- A magnitude of a unit that is no finer is a whole number of steps.
    obtain ⟨j, hj⟩ : ∃ j : ℕ, fmt.number other = j * 2 ^ unit := by
      rw [number, two_zpow_eq_natCast_mul hcoarse, ← mul_assoc, ← Nat.cast_mul]
      exact ⟨_, rfl⟩
    have hjne : (j : ℤ) ≠ steps := by
      rintro hjs
      apply hne
      apply fmt.number_strictMono.injective
      rw [hj, h.number_steps]
      exact_mod_cast congrArg (fun n : ℤ => (n : ℚ) * 2 ^ unit) hjs
    rw [hj, abs_mul_sub_eq hunit, abs_mul_sub_eq hunit]
    rcases h.nearest.lt_or_even hjne with hlt | ⟨heq, heven⟩
    · left
      exact mul_lt_mul_of_pos_right (by exact_mod_cast hlt) hunit
    · right
      refine ⟨by push_cast at heq; rw [heq], ?_⟩
      exact (hhidden.mul_left _).add (by exact_mod_cast heven)
  · -- A magnitude of a finer unit lies below the first full number of steps.
    left
    have hfiner : fmt.unitExponent other < unit := by omega
    have hmin := (fmt.isNormal_significand other).min_le
    have hfull := h.full.resolve_right (by omega)
    have hbelow := number_lt_of_unitExponent_lt hfiner
    have hnear := h.nearest.abs_sub_le_abs_sub fmt.hiddenBit
    calc |steps * 2 ^ unit - a| = |(steps : ℚ) - a / 2 ^ unit| * 2 ^ unit :=
          abs_mul_sub_eq hunit ..
      _ ≤ |(fmt.hiddenBit : ℚ) - a / 2 ^ unit| * 2 ^ unit :=
          mul_le_mul_of_nonneg_right (by exact_mod_cast hnear) (le_of_lt hunit)
      _ = |fmt.hiddenBit * 2 ^ unit - a| := (abs_mul_sub_eq hunit ..).symm
      _ = a - fmt.hiddenBit * 2 ^ unit := by rw [abs_sub_comm, abs_of_nonneg (by linarith)]
      _ < a - fmt.number other := by linarith
      _ ≤ |fmt.number other - a| := by rw [abs_sub_comm]; exact le_abs_self _

/-- A rounded magnitude is the nearest one up to that of infinity, the even one of two. -/
theorem lt_or_even {other : ℕ} (hother : other ≤ fmt.infinity) (hne : other ≠ magnitude) :
    |fmt.number magnitude - a| < |fmt.number other - a| ∨
      |fmt.number magnitude - a| = |fmt.number other - a| ∧ Even magnitude := by
  have hmagnitude := h.magnitude_eq
  rcases Nat.lt_or_ge fmt.infinity ((unit - fmt.minExponent).toNat * fmt.hiddenBit + steps)
    with hgt | hle
  · -- What is rounded past infinity lies above it, and all other magnitudes lie below.
    rw [Nat.min_eq_left (Nat.le_of_lt hgt)] at hmagnitude
    subst hmagnitude
    left
    have hbeyond := fmt.number_strictMono hgt
    rw [h.number_steps] at hbeyond
    have hnear : |steps * 2 ^ unit - a| ≤ |fmt.number fmt.infinity - a| := by
      rcases h.steps_lt_or_even (Nat.ne_of_lt hgt) with hlt | ⟨heq, -⟩
      · exact le_of_lt hlt
      · exact le_of_eq heq
    have hbelow : fmt.number other < fmt.number fmt.infinity :=
      number_lt_iff.2 (Nat.lt_of_le_of_ne hother hne)
    have habove : fmt.number fmt.infinity < a := by
      by_contra hle
      rw [abs_of_nonneg (by linarith), abs_of_nonneg (by linarith)] at hnear
      linarith
    rw [abs_sub_comm, abs_of_pos (by linarith), abs_sub_comm, abs_of_pos (by linarith)]
    linarith
  · rw [Nat.min_eq_right hle] at hmagnitude
    rw [hmagnitude] at hne ⊢
    rw [h.number_steps]
    exact h.steps_lt_or_even hne

theorem abs_sub_le_abs_sub {other : ℕ} (hother : other ≤ fmt.infinity) :
    |fmt.number magnitude - a| ≤ |fmt.number other - a| := by
  by_cases hne : other = magnitude
  · rw [hne]
  · rcases h.lt_or_even hother hne with hlt | ⟨heq, -⟩
    · exact le_of_lt hlt
    · exact le_of_eq heq

end RoundsIn

end Format

end QuantClassifier
