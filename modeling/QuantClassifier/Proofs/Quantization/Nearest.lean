import QuantClassifier.Proofs.Binary.Whole
import QuantClassifier.Quantization.Affine

/-!
# The nearest stored value

A real value is divided by the scale and moved by the zero point, in double precision, and the stored
value is the whole number of the slot's range that is nearest to that place, the even one of two
(`quantize_nearest`). Rounding first and cutting off at the ends of the range afterwards makes no
difference (`IsNearestEven.clamp`). A place beyond all numbers is stored as the end of the range on
its side, and a place that is no number as zero.
-/

namespace QuantClassifier

/-- `q` is the whole number of a range that is nearest to `a`, the even one of two. -/
structure IsNearestIn (lo hi : ℤ) (a : ℚ) (q : ℤ) : Prop where
  low_le : lo ≤ q
  le_high : q ≤ hi
  near : ∀ n : ℤ, lo ≤ n → n ≤ hi → |q - a| ≤ |n - a|
  even : ∀ n : ℤ, lo ≤ n → n ≤ hi → n ≠ q → |q - a| = |n - a| → Even q

/-- The nearest whole number of all is cut off to the nearest one of a range. -/
theorem IsNearestEven.clamp {a : ℚ} {k lo hi : ℤ} (h : IsNearestEven a k) (hrange : lo ≤ hi) :
    IsNearestIn lo hi a (max lo (min hi k)) := by
  obtain ⟨hleft, hright⟩ := abs_le.1 h.near
  rcases lt_or_ge k lo with hbelow | hlow
  · -- The number itself lies below the range, so every other end is farther.
    have hq : max lo (min hi k) = lo := by omega
    have ha : a < lo := by
      have hcast : (k : ℚ) + 1 ≤ lo := by exact_mod_cast hbelow
      linarith
    have hdist : ∀ n : ℤ, lo ≤ n → |(n : ℚ) - a| = n - a := fun n hn => by
      have hcast : (lo : ℚ) ≤ n := by exact_mod_cast hn
      exact abs_of_nonneg (by linarith)
    rw [hq]
    refine ⟨le_refl _, hrange, fun n hn _ => ?_, fun n hn _ hne heq => ?_⟩
    · rw [hdist lo (le_refl _), hdist n hn]
      exact sub_le_sub_right (by exact_mod_cast hn) a
    · rw [hdist lo (le_refl _), hdist n hn, sub_left_inj] at heq
      exact absurd (by exact_mod_cast heq.symm) hne
  · rcases lt_or_ge hi k with habove | hhigh
    · have hq : max lo (min hi k) = hi := by omega
      have ha : (hi : ℚ) < a := by
        have hcast : (hi : ℚ) + 1 ≤ k := by exact_mod_cast habove
        linarith
      have hdist : ∀ n : ℤ, n ≤ hi → |(n : ℚ) - a| = a - n := fun n hn => by
        have hcast : (n : ℚ) ≤ hi := by exact_mod_cast hn
        rw [abs_sub_comm]
        exact abs_of_nonneg (by linarith)
      rw [hq]
      refine ⟨hrange, le_refl _, fun n _ hn => ?_, fun n _ hn hne heq => ?_⟩
      · rw [hdist hi (le_refl _), hdist n hn]
        exact sub_le_sub_left (by exact_mod_cast hn) a
      · rw [hdist hi (le_refl _), hdist n hn, sub_right_inj] at heq
        exact absurd (by exact_mod_cast heq.symm) hne
    · have hq : max lo (min hi k) = k := by omega
      rw [hq]
      refine ⟨hlow, hhigh, fun n _ _ => h.abs_sub_le_abs_sub n, fun n _ _ hne heq => ?_⟩
      rcases h.lt_or_even hne with hlt | ⟨-, heven⟩
      · exact absurd heq (ne_of_lt hlt)
      · exact heven

/-! ## Cutting off -/

namespace Binary

variable {lo hi : ℤ}

/-- What is cut off at two whole numbers is a number between them. -/
theorem toRat_clamp {x : Double} (hx : x.isNaN = false) (hlo : |lo| ≤ 2 ^ 53)
    (hhi : |hi| ≤ 2 ^ 53) (hrange : lo ≤ hi) :
    (x.clamp (ofInt lo) (ofInt hi)).isFinite = true ∧
      (x.clamp (ofInt lo) (ofInt hi)).toRat = Max.max (lo : ℚ) (min (hi : ℚ) x.toRat) := by
  obtain ⟨hloFinite, hloRat⟩ := toRat_ofInt hlo
  obtain ⟨hhiFinite, hhiRat⟩ := toRat_ofInt hhi
  have hcast : (lo : ℚ) ≤ hi := by exact_mod_cast hrange
  have hbelow := less_iff hx (isNaN_of_isFinite hloFinite)
  have habove := less_iff (isNaN_of_isFinite hhiFinite) hx
  rw [hloRat] at hbelow
  rw [hhiRat] at habove
  unfold clamp
  split
  next hlt =>
    have hx := hbelow.1 hlt
    refine ⟨hloFinite, ?_⟩
    rw [hloRat, min_eq_right (by linarith), max_eq_left (le_of_lt hx)]
  next hge =>
    have hxlo := not_lt.1 (mt hbelow.2 hge)
    split
    next hgt =>
      refine ⟨hhiFinite, ?_⟩
      rw [hhiRat, min_eq_left (le_of_lt (habove.1 hgt)), max_eq_right hcast]
    next hle =>
      have hxhi := not_lt.1 (mt habove.2 hle)
      have hlow := isFinite_double_iff.1 hloFinite
      have hhigh := isFinite_double_iff.1 hhiFinite
      rw [hloRat] at hlow
      rw [hhiRat] at hhigh
      refine ⟨isFinite_double_iff.2 (abs_lt.2 ⟨?_, ?_⟩), ?_⟩
      · exact lt_of_lt_of_le (abs_lt.1 hlow).1 hxlo
      · exact lt_of_le_of_lt hxhi (abs_lt.1 hhigh).2
      · rw [min_eq_right hxhi, max_eq_right hxlo]

/-- A whole number beyond the range or in it becomes the nearest one of the range. -/
theorem truncate_clamp {x : Double} {k : ℤ} (hx : x.isNaN = false) (hk : x.toRat = k)
    (hlo : |lo| ≤ 2 ^ 53) (hhi : |hi| ≤ 2 ^ 53) (hrange : lo ≤ hi) :
    (x.clamp (ofInt lo) (ofInt hi)).truncate lo hi = Max.max lo (min hi k) := by
  obtain ⟨hfinite, hrat⟩ := toRat_clamp hx hlo hhi hrange
  have hwhole : (x.clamp (ofInt lo) (ofInt hi)).toRat = (Max.max lo (min hi k) : ℤ) := by
    rw [hrat, hk]
    push_cast
    rfl
  rw [truncate_of_toRat lo hi hfinite hwhole]
  omega

theorem truncate_clamp_of_isNaN {x : Double} (hx : x.isNaN = true) (y z : Double) :
    (x.clamp y z).truncate lo hi = 0 := by
  have hclamp : x.clamp y z = x := by simp [clamp, less, hx]
  rw [hclamp, truncate, saturate, value_eq_nan_iff.2 hx]

end Binary

/-! ## Storing -/

/-- The range of a slot is an interval of bytes. -/
theorem SlotType.range_bounds {slot : SlotType} {lo hi : ℤ} (h : slot.range? = some (lo, hi)) :
    -128 ≤ lo ∧ hi ≤ 255 ∧ lo ≤ hi ∧ hi - lo ≤ 255 := by
  cases slot with
  | f32 => cases h
  | u8 | i8 =>
    cases h
    decide

/-- `q` is what is stored for a place: the nearest whole number of the range, the end of the range on
the side of an infinite place, and zero for no place at all. -/
def IsStoredFor (lo hi : ℤ) (v : Double) (q : ℤ) : Prop :=
  match v.value with
  | .nan => q = 0
  | .infinite negative => q = if negative then lo else hi
  | .finite .. => IsNearestIn lo hi v.toRat q

namespace QuantParams

variable {slot : SlotType} {lo hi : ℤ}

/-- The place of a real value among the stored ones. -/
def place (p : QuantParams) (x : Single) : Double :=
  x.toDouble / p.scale + Binary.ofInt p.zeroPoint

theorem affine_eq (p : QuantParams) (x : Single) : p.affine x = (p.place x).roundTiesEven := rfl

/-- A whole number in the middle of the way is cut off to the range. -/
theorem quantize_of_toRat {p : QuantParams} {x : Single} {k : ℤ}
    (hslot : slot.range? = some (lo, hi)) (hx : (p.affine x).isNaN = false)
    (hk : (p.affine x).toRat = k) : p.quantize lo hi x = max lo (min hi k) := by
  obtain ⟨hlo, hhi, hrange, hlength⟩ := SlotType.range_bounds hslot
  apply Binary.truncate_clamp hx hk _ _ hrange
  · rw [abs_le]
    omega
  · rw [abs_le]
    omega

/-- At a finite place the nearest whole number is cut off to the range. -/
theorem quantize_of_isFinite {p : QuantParams} {x : Single} (hslot : slot.range? = some (lo, hi))
    (h : (p.place x).isFinite = true) :
    ∃ k : ℤ, IsNearestEven (p.place x).toRat k ∧ (p.affine x).isFinite = true ∧
      (p.affine x).toRat = k ∧ p.quantize lo hi x = max lo (min hi k) := by
  obtain ⟨k, hnearest, hfinite, hk⟩ := Binary.roundTiesEven_spec h
  exact ⟨k, hnearest, hfinite, hk,
    quantize_of_toRat hslot (Binary.isNaN_of_isFinite hfinite) hk⟩

theorem isStoredFor_quantize (hslot : slot.range? = some (lo, hi)) (p : QuantParams) (x : Single) :
    IsStoredFor lo hi (p.place x) (p.quantize lo hi x) := by
  obtain ⟨hlo, hhi, hrange, -⟩ := SlotType.range_bounds hslot
  unfold IsStoredFor
  split
  next hnan =>
    have haffine : p.affine x = p.place x := by
      rw [affine_eq, Binary.roundTiesEven, hnan]
    apply Binary.truncate_clamp_of_isNaN
    rw [haffine]
    exact Binary.value_eq_nan_iff.1 hnan
  next negative hinfinite =>
    have haffine : p.affine x = p.place x := by
      rw [affine_eq, Binary.roundTiesEven, hinfinite]
    obtain ⟨hx, hrat⟩ := Binary.toRat_of_infinite hinfinite
    rw [← haffine] at hx hrat
    rw [quantize_of_toRat hslot hx hrat]
    cases negative
    · simp only [Bool.false_eq_true, if_false]
      omega
    · simp only [if_true]
      omega
  next hfinite =>
    obtain ⟨k, hnearest, -, -, hq⟩ :=
      quantize_of_isFinite hslot (Binary.isFinite_of_value hfinite)
    rw [hq]
    exact hnearest.clamp hrange

/-- The quotient by a scale that is a number other than zero is rounded correctly. -/
theorem rounds_quotient {p : QuantParams} {x : Single} (hx : x.isFinite = true)
    (hscale : p.scale.isFinite = true) (hne : p.scale.toRat ≠ 0) :
    (x.toDouble / p.scale).Rounds (x.toRat / p.scale.toRat) := by
  obtain ⟨hfinite, hrat⟩ := Binary.toRat_toDouble hx
  rw [← hrat]
  exact Binary.rounds_div hfinite hscale hne

/-- The sum with a zero point that double precision holds is rounded correctly. -/
theorem rounds_place {p : QuantParams} {x : Single}
    (hquotient : (x.toDouble / p.scale).isFinite = true) (hzero : |p.zeroPoint| ≤ 2 ^ 53) :
    (p.place x).Rounds ((x.toDouble / p.scale).toRat + p.zeroPoint) := by
  obtain ⟨hfinite, hrat⟩ := Binary.toRat_ofInt hzero
  rw [← hrat]
  exact Binary.rounds_add hquotient hfinite

/-- The stored value is the nearest one to the place of the real value, which is a quotient and a sum,
each rounded correctly; whatever the scale, and wherever the zero point. -/
theorem quantize_nearest (hslot : slot.range? = some (lo, hi)) (p : QuantParams) (x : Single) :
    (x.isFinite = true → p.scale.isFinite = true → p.scale.toRat ≠ 0 →
      (x.toDouble / p.scale).Rounds (x.toRat / p.scale.toRat)) ∧
    ((x.toDouble / p.scale).isFinite = true → -2 ^ 31 ≤ p.zeroPoint → p.zeroPoint < 2 ^ 31 →
      (p.place x).Rounds ((x.toDouble / p.scale).toRat + p.zeroPoint)) ∧
    IsStoredFor lo hi (p.place x) (p.quantize lo hi x) := by
  refine ⟨rounds_quotient, ?_, isStoredFor_quantize hslot p x⟩
  intro hquotient hlow hhigh
  apply rounds_place hquotient
  rw [abs_le]
  omega

/-- Stored values that are counted from the greatest one on. -/
def fromGreatest : QuantParams := ⟨Binary.ofInt 1, 127⟩

/-- One half lies as far from the greatest value, which is odd, as from the number after it. -/
theorem quantize_half_fromGreatest :
    ((Binary.ofScaled 1 (-1) : Single).toDouble / fromGreatest.scale).Rounds
        ((Binary.ofScaled 1 (-1) : Single).toRat / 1) ∧
      (fromGreatest.place (Binary.ofScaled 1 (-1))).Rounds
        (((Binary.ofScaled 1 (-1) : Single).toDouble / fromGreatest.scale).toRat + 127) ∧
      IsStoredFor (-128) 127 (fromGreatest.place (Binary.ofScaled 1 (-1)))
        (fromGreatest.quantize (-128) 127 (Binary.ofScaled 1 (-1))) ∧
      fromGreatest.quantize (-128) 127 (Binary.ofScaled 1 (-1)) = 127 := by
  have hscale : fromGreatest.scale.isFinite = true ∧ fromGreatest.scale.toRat = (1 : ℤ) :=
    Binary.toRat_ofInt (by decide)
  rw [Int.cast_one] at hscale
  obtain ⟨hquotient, hplace, hstored⟩ :=
    quantize_nearest (rfl : SlotType.i8.range? = _) fromGreatest (Binary.ofScaled 1 (-1))
  rw [hscale.2] at hquotient
  refine ⟨hquotient (by decide +kernel) hscale.1 one_ne_zero, ?_, hstored, by decide +kernel⟩
  exact hplace (by decide +kernel) (by decide) (by decide)

end QuantParams

end QuantClassifier
