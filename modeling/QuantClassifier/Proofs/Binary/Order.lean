import Mathlib.Algebra.Ring.Int.Parity
import QuantClassifier.Proofs.Binary.Whole

/-!
# The order of floats

One float is at most another if it is less or equal, so that a NaN is neither below nor above
anything; for floats that are numbers this is the order of the numbers (`le_iff`). The roundings of
two numbers are in the order of the numbers (`Rounds.le_of_le`). So an operation that rounds an exact
result keeps the order as far as the exact result does, and at the infinities nothing is left to
show if they stay where they are (`keepsOrder_of_finite`): changing the format, dividing by a
positive number, multiplying by one, adding a number and rounding to a whole number keep the order.

The total order also has places for NaNs and tells the zeros apart (`Precedes`). It is that of the
keys by which floats are sorted (`precedes_iff`).
-/

namespace QuantClassifier.Binary

variable {fmt src dst : Format} {x y z : Binary fmt} {a b : ℚ} {s : Bool}

/-- Less or equal, which nothing is to a NaN. -/
instance : LE (Binary fmt) := ⟨fun x y => x.less y = true ∨ x.eqv y = true⟩

/-! ## Keys and numbers -/

theorem orderKey_lt_iff (hx : x.isNaN = false) (hy : y.isNaN = false) :
    x.orderKey < y.orderKey ↔ x.toRat < y.toRat := by
  rw [← less_iff hx hy]
  simp [less, hx, hy]

theorem le_iff : x ≤ y ↔ x.isNaN = false ∧ y.isNaN = false ∧ x.toRat ≤ y.toRat := by
  have hkeys : x ≤ y ↔ x.isNaN = false ∧ y.isNaN = false ∧ x.orderKey ≤ y.orderKey := by
    show x.less y = true ∨ x.eqv y = true ↔ _
    simp only [less, eqv, Bool.and_eq_true, Bool.not_eq_true', decide_eq_true_eq, and_assoc,
      ← and_or_left, le_iff_lt_or_eq]
  rw [hkeys]
  refine and_congr_right fun hx => and_congr_right fun hy => ?_
  rw [← not_lt, ← not_lt, orderKey_lt_iff hy hx]

theorem natAbs_orderKey (x : Binary fmt) : x.orderKey.natAbs = x.magnitude := by
  rw [orderKey]
  cases x.negative <;> simp

theorem even_orderKey : Even x.orderKey ↔ Even x.magnitude := by
  rw [← natAbs_orderKey, Int.natAbs_even]

/-- Every key up to those of the infinities is that of a number. -/
theorem exists_orderKey_eq {k : ℤ} (h : k.natAbs ≤ fmt.infinity) :
    ∃ z : Binary fmt, z.isNaN = false ∧ z.orderKey = k := by
  refine ⟨⟨decide (k < 0), k.natAbs, Nat.lt_of_le_of_lt h fmt.infinity_lt⟩,
    decide_eq_false (Nat.not_lt.2 h), ?_⟩
  show (if decide (k < 0) = true then -(k.natAbs : ℤ) else k.natAbs) = k
  split
  next hneg =>
    have hlt := of_decide_eq_true hneg
    omega
  next hnonneg =>
    have hge := mt decide_eq_true hnonneg
    omega

/-- Between two numbers of even magnitudes there is another number. -/
theorem exists_between (hx : x.isNaN = false) (hy : y.isNaN = false) (hlt : x.toRat < y.toRat)
    (hevenX : Even x.magnitude) (hevenY : Even y.magnitude) :
    ∃ z : Binary fmt, z.isNaN = false ∧ x.toRat < z.toRat ∧ z.toRat < y.toRat := by
  have hkeys := (orderKey_lt_iff hx hy).2 hlt
  obtain ⟨n, hn⟩ := even_orderKey.2 hevenX
  obtain ⟨m, hm⟩ := even_orderKey.2 hevenY
  have hboundX := natAbs_orderKey x
  have hboundY := natAbs_orderKey y
  have hmagnitudeX := magnitude_le_infinity hx
  have hmagnitudeY := magnitude_le_infinity hy
  obtain ⟨z, hz, hkey⟩ : ∃ z : Binary fmt, z.isNaN = false ∧ z.orderKey = x.orderKey + 1 := by
    apply exists_orderKey_eq
    omega
  exact ⟨z, hz, (orderKey_lt_iff hx hz).1 (by omega), (orderKey_lt_iff hz hy).1 (by omega)⟩

/-! ## Rounding -/

/-- The greater of two numbers is the nearer one only on its side of the middle. -/
theorem add_le_of_abs_sub_le {m n c : ℚ} (hlt : m < n) (h : |n - c| ≤ |m - c|) :
    m + n ≤ 2 * c := by
  by_contra hgt
  have hproduct := mul_pos (sub_pos.2 hlt) (sub_pos.2 (lt_of_not_ge hgt))
  have hsquares := sq_le_sq.2 h
  linarith

/-- The less of two numbers is the nearer one only on its side of the middle. -/
theorem le_add_of_abs_sub_le {m n c : ℚ} (hlt : m < n) (h : |m - c| ≤ |n - c|) :
    2 * c ≤ m + n := by
  by_contra hgt
  have hproduct := mul_pos (sub_pos.2 hlt) (sub_pos.2 (lt_of_not_ge hgt))
  have hsquares := sq_le_sq.2 h
  linarith

namespace Rounds

/-- A number has no two roundings one below the other: both would be even, and a float between them
would be nearer. -/
theorem toRat_le_toRat (hx : x.Rounds a) (hy : y.Rounds a) : y.toRat ≤ x.toRat := by
  by_contra hgt
  have hlt := lt_of_not_ge hgt
  have hdist : |x.toRat - a| = |y.toRat - a| :=
    le_antisymm (hx.nearest y hy.isNaN) (hy.nearest x hx.isNaN)
  have hevenX := hx.even y hy.isNaN (ne_of_gt hlt) hdist
  have hevenY := hy.even x hx.isNaN (ne_of_lt hlt) hdist.symm
  obtain ⟨z, hz, hxz, hzy⟩ := exists_between hx.isNaN hy.isNaN hlt hevenX hevenY
  have hlow := le_add_of_abs_sub_le hxz (hx.nearest z hz)
  have hhigh := add_le_of_abs_sub_le hzy (hy.nearest z hz)
  linarith

/-- The roundings of two numbers are in the order of the numbers. -/
theorem le_of_le (hx : x.Rounds a) (hy : y.Rounds b) (hab : a ≤ b) : x ≤ y := by
  rw [le_iff]
  refine ⟨hx.isNaN, hy.isNaN, ?_⟩
  rcases lt_or_eq_of_le hab with hlt | rfl
  · by_contra hgt
    have hcrossed := lt_of_not_ge hgt
    have hlow := add_le_of_abs_sub_le hcrossed (hx.nearest y hy.isNaN)
    have hhigh := le_add_of_abs_sub_le hcrossed (hy.nearest x hx.isNaN)
    linarith
  · exact hy.toRat_le_toRat hx

end Rounds

theorem ofInt_le_ofInt {n m : ℤ} (h : n ≤ m) : (ofInt n : Binary fmt) ≤ ofInt m :=
  (rounds_ofInt fmt n).le_of_le (rounds_ofInt fmt m) (by exact_mod_cast h)

/-! ## The infinities -/

theorem toRat_infinity (s : Bool) :
    (infinity s : Binary fmt).toRat = withSign s (fmt.number fmt.infinity) := rfl

theorem number_infinity_pos (fmt : Format) : 0 < fmt.number fmt.infinity := by
  rw [← fmt.number_zero]
  exact fmt.number_strictMono fmt.infinity_pos

theorem abs_toRat_le_infinity (h : x.isNaN = false) : |x.toRat| ≤ fmt.number fmt.infinity := by
  rw [abs_toRat, Format.number_le_iff]
  exact magnitude_le_infinity h

theorem infinity_le (h : x.isNaN = false) : infinity true ≤ x :=
  le_iff.2 ⟨isNaN_infinity _, h, (abs_le.1 (abs_toRat_le_infinity h)).1⟩

theorem le_infinity (h : x.isNaN = false) : x ≤ infinity false :=
  le_iff.2 ⟨h, isNaN_infinity _, (abs_le.1 (abs_toRat_le_infinity h)).2⟩

/-- Of two floats in order both are finite, unless the one is the least or the other the greatest of
all. -/
theorem cases_of_le (h : x ≤ y) : x = infinity true ∨ y = infinity false ∨
    x.isFinite = true ∧ y.isFinite = true ∧ x.toRat ≤ y.toRat := by
  obtain ⟨hx, hy, hle⟩ := le_iff.1 h
  have hpos := number_infinity_pos fmt
  cases hxFinite : x.isFinite with
  | true =>
    cases hyFinite : y.isFinite with
    | true => exact Or.inr (Or.inr ⟨rfl, rfl, hle⟩)
    | false =>
      obtain ⟨s, rfl⟩ := exists_eq_infinity hy hyFinite
      cases s with
      | false => exact Or.inr (Or.inl rfl)
      | true =>
        have hlow := (abs_lt.1 (isFinite_iff.1 hxFinite)).1
        rw [toRat_infinity, withSign_true] at hle
        linarith
  | false =>
    obtain ⟨s, rfl⟩ := exists_eq_infinity hx hxFinite
    cases s with
    | true => exact Or.inl rfl
    | false =>
      right; left
      cases hyFinite : y.isFinite with
      | true =>
        have hhigh := (abs_lt.1 (isFinite_iff.1 hyFinite)).2
        rw [toRat_infinity, withSign_false] at hle
        linarith
      | false =>
        obtain ⟨s, rfl⟩ := exists_eq_infinity hy hyFinite
        cases s with
        | false => rfl
        | true =>
          rw [toRat_infinity, toRat_infinity, withSign_false, withSign_true] at hle
          linarith

/-! ## Operations -/

/-- What is in order stays in order. -/
def KeepsOrder (f : Binary src → Binary dst) : Prop := ∀ {x y}, x ≤ y → f x ≤ f y

/-- An operation that leaves the infinities where they are keeps the order if it does so on finite
floats. -/
theorem keepsOrder_of_finite {f : Binary src → Binary dst} (hinfinity : ∀ s, f (infinity s) = infinity s)
    (hfinite : ∀ {x y}, x.isFinite = true → y.isFinite = true → x.toRat ≤ y.toRat → f x ≤ f y) :
    KeepsOrder f := by
  have hnumber : ∀ {x}, x.isNaN = false → (f x).isNaN = false := fun {x} hx => by
    cases hxFinite : x.isFinite with
    | true => exact (le_iff.1 (hfinite hxFinite hxFinite (le_refl _))).1
    | false =>
      obtain ⟨s, rfl⟩ := exists_eq_infinity hx hxFinite
      rw [hinfinity]
      exact isNaN_infinity s
  intro x y h
  obtain ⟨hx, hy, -⟩ := le_iff.1 h
  rcases cases_of_le h with rfl | rfl | ⟨hxFinite, hyFinite, hle⟩
  · rw [hinfinity]
    exact infinity_le (hnumber hy)
  · rw [hinfinity]
    exact le_infinity (hnumber hx)
  · exact hfinite hxFinite hyFinite hle

theorem keepsOrder_convert (src dst : Format) :
    KeepsOrder (fun x : Binary src => x.convert dst) := by
  apply keepsOrder_of_finite
  · intro s
    rw [convert, value_infinity]
  · intro x y hx hy hle
    exact (rounds_convert dst hx).le_of_le (rounds_convert dst hy) hle

/-- A positive number has no sign. -/
theorem exists_value_of_pos (hfinite : z.isFinite = true) (hpos : 0 < z.toRat) :
    ∃ m e, z.value = .finite false m e ∧ m ≠ 0 := by
  obtain ⟨m, e, hvalue⟩ := exists_value hfinite
  have hrat := toRat_of_value hvalue
  cases hsign : z.negative with
  | true =>
    rw [hsign, withSign_true] at hrat
    have hnonneg : (0 : ℚ) ≤ m * 2 ^ e := by positivity
    linarith
  | false =>
    rw [hsign] at hvalue hrat
    refine ⟨m, e, hvalue, ?_⟩
    rintro rfl
    rw [hrat, withSign_false, Nat.cast_zero, zero_mul] at hpos
    exact lt_irrefl _ hpos

theorem keepsOrder_div (hfinite : z.isFinite = true) (hpos : 0 < z.toRat) :
    KeepsOrder (· / z) := by
  apply keepsOrder_of_finite
  · intro s
    obtain ⟨m, e, hvalue, -⟩ := exists_value_of_pos hfinite hpos
    show div (infinity s) z = infinity s
    rw [div, value_infinity, hvalue]
    simp
  · intro x y hx hy hle
    apply (rounds_div hx hfinite (ne_of_gt hpos)).le_of_le (rounds_div hy hfinite (ne_of_gt hpos))
    exact div_le_div_of_nonneg_right hle (le_of_lt hpos)

theorem keepsOrder_mul (hfinite : z.isFinite = true) (hpos : 0 < z.toRat) :
    KeepsOrder (· * z) := by
  apply keepsOrder_of_finite
  · intro s
    obtain ⟨m, e, hvalue, hm⟩ := exists_value_of_pos hfinite hpos
    show mul (infinity s) z = infinity s
    rw [mul, value_infinity, hvalue]
    simp [hm]
  · intro x y hx hy hle
    apply (rounds_mul hx hfinite).le_of_le (rounds_mul hy hfinite)
    exact mul_le_mul_of_nonneg_right hle (le_of_lt hpos)

theorem keepsOrder_add (hfinite : z.isFinite = true) : KeepsOrder (· + z) := by
  apply keepsOrder_of_finite
  · intro s
    exact infinity_add s hfinite
  · intro x y hx hy hle
    apply (rounds_add hx hfinite).le_of_le (rounds_add hy hfinite)
    exact add_le_add_left hle _

theorem keepsOrder_roundTiesEven : KeepsOrder (roundTiesEven : Double → Double) := by
  apply keepsOrder_of_finite fun s => roundTiesEven_of_not_isFinite (isFinite_infinity s)
  intro x y hx hy hle
  obtain ⟨k, hk, hxFinite, hxRat⟩ := roundTiesEven_spec hx
  obtain ⟨j, hj, hyFinite, hyRat⟩ := roundTiesEven_spec hy
  rw [le_iff, hxRat, hyRat]
  refine ⟨isNaN_of_isFinite hxFinite, isNaN_of_isFinite hyFinite, ?_⟩
  exact_mod_cast hk.le_of_le hj hle

/-- Rounded to a whole number, a number has a whole number, an infinity too. -/
theorem exists_toRat_roundTiesEven {x : Double} (h : x.isNaN = false) :
    ∃ k : ℤ, x.roundTiesEven.toRat = k := by
  cases hfinite : x.isFinite with
  | true =>
    obtain ⟨k, -, -, hk⟩ := roundTiesEven_spec hfinite
    exact ⟨k, hk⟩
  | false =>
    obtain ⟨s, hs⟩ := exists_eq_infinity h hfinite
    obtain ⟨-, hrat⟩ := toRat_of_infinite (hs ▸ value_infinity s)
    rw [roundTiesEven_of_not_isFinite hfinite]
    exact ⟨_, hrat⟩

/-! ## The total order -/

/-- The total order of all floats: numbers by their values and the negative zero before the positive
one, NaNs before all numbers or after them by their signs, and among those of one sign the farther
out the greater what they carry. -/
inductive Precedes (x y : Binary fmt) : Prop where
  | number (hx : x.isNaN = false) (hy : y.isNaN = false) (h : x.toRat < y.toRat)
  | zero (hx : x.isNaN = false) (hy : y.isNaN = false) (h : x.toRat = y.toRat)
      (hnegative : x.negative = true) (hpositive : y.negative = false)
  | beforeNumbers (hx : x.isNaN = true) (hnegative : x.negative = true) (hy : y.isNaN = false)
  | afterNumbers (hx : x.isNaN = false) (hy : y.isNaN = true) (hpositive : y.negative = false)
  | signs (hx : x.isNaN = true) (hy : y.isNaN = true) (hnegative : x.negative = true)
      (hpositive : y.negative = false)
  | negativePayloads (hx : x.isNaN = true) (hy : y.isNaN = true) (hxSign : x.negative = true)
      (hySign : y.negative = true) (h : y.magnitude < x.magnitude)
  | positivePayloads (hx : x.isNaN = true) (hy : y.isNaN = true) (hxSign : x.negative = false)
      (hySign : y.negative = false) (h : x.magnitude < y.magnitude)

theorem isNaN_iff : x.isNaN = true ↔ fmt.infinity < x.magnitude := decide_eq_true_iff

theorem totalKey_of_negative (h : x.negative = true) : x.totalKey = -(x.magnitude : ℤ) - 1 :=
  if_pos h

theorem totalKey_of_positive (h : x.negative = false) : x.totalKey = x.magnitude :=
  if_neg (by rw [h]; exact Bool.false_ne_true)

/-- The keys tell floats apart as those of the numbers do, and then the zeros. -/
theorem totalKey_lt_iff : x.totalKey < y.totalKey ↔ x.orderKey < y.orderKey ∨
    x.orderKey = y.orderKey ∧ x.negative = true ∧ y.negative = false := by
  rw [totalKey, totalKey, orderKey, orderKey]
  cases x.negative <;> cases y.negative <;> simp <;> omega

theorem orderKey_eq_iff (hx : x.isNaN = false) (hy : y.isNaN = false) :
    x.orderKey = y.orderKey ↔ x.toRat = y.toRat := by
  rw [le_antisymm_iff, le_antisymm_iff, ← not_lt, ← not_lt, ← not_lt, ← not_lt,
    orderKey_lt_iff hy hx, orderKey_lt_iff hx hy]

/-- The keys of all floats are in their total order. -/
theorem precedes_iff : x.Precedes y ↔ x.totalKey < y.totalKey := by
  constructor
  · intro h
    cases h with
    | number hx hy h => exact totalKey_lt_iff.2 (Or.inl ((orderKey_lt_iff hx hy).2 h))
    | zero hx hy h hnegative hpositive =>
      exact totalKey_lt_iff.2 (Or.inr ⟨(orderKey_eq_iff hx hy).2 h, hnegative, hpositive⟩)
    | beforeNumbers hx hnegative hy =>
      have hfar := isNaN_iff.1 hx
      have hnear := magnitude_le_infinity hy
      rw [totalKey_of_negative hnegative, totalKey]
      split <;> omega
    | afterNumbers hx hy hpositive =>
      have hnear := magnitude_le_infinity hx
      have hfar := isNaN_iff.1 hy
      rw [totalKey_of_positive hpositive, totalKey]
      split <;> omega
    | signs hx hy hnegative hpositive =>
      rw [totalKey_of_negative hnegative, totalKey_of_positive hpositive]
      omega
    | negativePayloads hx hy hxSign hySign h =>
      rw [totalKey_of_negative hxSign, totalKey_of_negative hySign]
      omega
    | positivePayloads hx hy hxSign hySign h =>
      rw [totalKey_of_positive hxSign, totalKey_of_positive hySign]
      omega
  · intro h
    cases hx : x.isNaN with
    | false =>
      have hnear := magnitude_le_infinity hx
      cases hy : y.isNaN with
      | false =>
        rcases totalKey_lt_iff.1 h with hlt | ⟨heq, hnegative, hpositive⟩
        · exact .number hx hy ((orderKey_lt_iff hx hy).1 hlt)
        · exact .zero hx hy ((orderKey_eq_iff hx hy).1 heq) hnegative hpositive
      | true =>
        refine .afterNumbers hx hy (Bool.eq_false_of_not_eq_true fun hySign => ?_)
        have hfar := isNaN_iff.1 hy
        rw [totalKey_of_negative hySign, totalKey] at h
        split at h <;> omega
    | true =>
      have hfar := isNaN_iff.1 hx
      cases hxSign : x.negative with
      | false =>
        have hySign : y.negative = false := Bool.eq_false_of_not_eq_true fun hySign => by
          rw [totalKey_of_positive hxSign, totalKey_of_negative hySign] at h
          omega
        rw [totalKey_of_positive hxSign, totalKey_of_positive hySign] at h
        exact .positivePayloads hx (isNaN_iff.2 (by omega)) hxSign hySign (by omega)
      | true =>
        cases hy : y.isNaN with
        | false => exact .beforeNumbers hx hxSign hy
        | true =>
          cases hySign : y.negative with
          | false => exact .signs hx hy hxSign hySign
          | true =>
            rw [totalKey_of_negative hxSign, totalKey_of_negative hySign] at h
            exact .negativePayloads hx hy hxSign hySign (by omega)

end QuantClassifier.Binary
