import QuantClassifier.Binary.Format

/-!
# Rounding to the nearest float

Every float the library computes is the rounding of one exact quotient `num / den * 2 ^ exponent`.
`Binary.ofQuotient` picks the unit in which the quotient has as many significand digits as the
format holds (never finer than the least positive number), rounds to a whole number of units with
ties to the even one, and reads the result off as a magnitude. Rounding up over the end of a binade
needs no case of its own because magnitudes continue over it, and what lies past the largest finite
float is infinity.
-/

namespace QuantClassifier

/-- The whole number nearest to `num / den`; of two equally near ones the even one. -/
def roundHalfEven (num den : Nat) : Nat :=
  let q := num / den
  let r := num % den
  if 2 * r < den ∨ 2 * r = den ∧ q % 2 = 0 then q else q + 1

/-- The whole number nearest to `num / den`; of two equally near ones the larger one. -/
def roundHalfUp (num den : Nat) : Nat := (2 * num + den) / (2 * den)

/-- Numerator and denominator of `num / den * 2 ^ shift`. -/
def scaleTwo (num den : Nat) (shift : Int) : Nat × Nat :=
  if 0 ≤ shift then (num * Nat.pow 2 shift.toNat, den) else (num, den * Nat.pow 2 (-shift).toNat)

namespace Format

/-- The exponent of the unit in which `num / den * 2 ^ exponent` is rounded: the least one, from
`minExponent` on, in which the quotient stays below two hidden bits. The lengths of the two numbers
leave two candidates. -/
def roundingUnit (fmt : Format) (num den : Nat) (exponent : Int) : Int :=
  let lead : Int := (num.log2 : Int) - (den.log2 : Int) + exponent
  let unit := max fmt.minExponent (lead - 1 - fmt.fractionBits)
  let (n, d) := scaleTwo num den (exponent - unit)
  if n / d < 2 * fmt.hiddenBit then unit else unit + 1

/-- The magnitude nearest to `num / den * 2 ^ exponent`. -/
def roundMagnitude (fmt : Format) (num den : Nat) (exponent : Int) : Nat :=
  if num = 0 then 0
  else
    let unit := fmt.roundingUnit num den exponent
    let (n, d) := scaleTwo num den (exponent - unit)
    min fmt.infinity ((unit - fmt.minExponent).toNat * fmt.hiddenBit + roundHalfEven n d)

theorem roundMagnitude_le (fmt : Format) (num den : Nat) (exponent : Int) :
    fmt.roundMagnitude num den exponent ≤ fmt.infinity := by
  unfold roundMagnitude
  split
  · exact Nat.zero_le _
  · exact Nat.min_le_left _ _

end Format

namespace Binary

variable {fmt : Format}

/-- The float nearest to `num / den * 2 ^ exponent`, with the given sign. -/
def ofQuotient (negative : Bool) (num den : Nat) (exponent : Int) : Binary fmt :=
  ⟨negative, fmt.roundMagnitude num den exponent,
    Nat.lt_of_le_of_lt (fmt.roundMagnitude_le num den exponent) fmt.infinity_lt⟩

/-- The float nearest to `n * 2 ^ exponent`; zero is positive. -/
def ofScaled (n : Int) (exponent : Int) : Binary fmt :=
  ofQuotient (n < 0) n.natAbs 1 exponent

/-- The float nearest to a whole number. -/
def ofInt (n : Int) : Binary fmt := ofScaled n 0

/-- The float nearest to a natural number. -/
def ofNat (n : Nat) : Binary fmt := ofInt n

/-- The float nearest to `digits / 10 ^ places`, for constants written as decimals. -/
def ofPlaces (digits places : Nat) : Binary fmt := ofQuotient false digits (Nat.pow 10 places) 0

theorem isNaN_ofQuotient (negative : Bool) (num den : Nat) (exponent : Int) :
    (ofQuotient negative num den exponent : Binary fmt).isNaN = false :=
  decide_eq_false (Nat.not_lt.2 (fmt.roundMagnitude_le num den exponent))

end Binary

end QuantClassifier
