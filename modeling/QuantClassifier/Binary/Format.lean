/-!
# Binary interchange floats

A float is a sign and a magnitude. Read as a number, the magnitude's low `fractionBits` are the
fraction and the bits above them the biased exponent, so magnitudes are ordered as the numbers they
stand for, the magnitude after the largest finite one is infinity, and all later ones are not
numbers. `Binary.value` is what a float stands for; every operation of the library is an exact
operation on values, rounded once.
-/

namespace QuantClassifier

/-- The widths of a binary interchange format. -/
structure Format where
  fractionBits : Nat
  exponentBits : Nat
  fractionBits_pos : 0 < fractionBits := by decide
  two_le_exponentBits : 2 ≤ exponentBits := by decide

namespace Format

/-- Single precision: 32 bits. -/
def single : Format := { fractionBits := 23, exponentBits := 8 }

/-- Double precision: 64 bits. -/
def double : Format := { fractionBits := 52, exponentBits := 11 }

/-- Significands of normal numbers start here. -/
def hiddenBit (fmt : Format) : Nat := Nat.pow 2 fmt.fractionBits

/-- All magnitudes are below this bound. -/
def magnitudeBound (fmt : Format) : Nat := Nat.pow 2 (fmt.fractionBits + fmt.exponentBits)

/-- The magnitude of infinity: every exponent bit set and no fraction. -/
def infinity (fmt : Format) : Nat := (Nat.pow 2 fmt.exponentBits - 1) * fmt.hiddenBit

/-- The exponent of the least positive number, which is also the finest unit there is. -/
def minExponent (fmt : Format) : Int := 2 - Nat.pow 2 (fmt.exponentBits - 1) - fmt.fractionBits

/-- The integer significand of a finite magnitude. -/
def significand (fmt : Format) (magnitude : Nat) : Nat :=
  if magnitude < fmt.hiddenBit then magnitude else magnitude % fmt.hiddenBit + fmt.hiddenBit

/-- The exponent of the unit in which a finite magnitude's significand counts. -/
def unitExponent (fmt : Format) (magnitude : Nat) : Int :=
  fmt.minExponent + ((magnitude / fmt.hiddenBit - 1 : Nat) : Int)

theorem hiddenBit_pos (fmt : Format) : 0 < fmt.hiddenBit := Nat.two_pow_pos _

theorem magnitudeBound_eq (fmt : Format) :
    fmt.magnitudeBound = Nat.pow 2 fmt.exponentBits * fmt.hiddenBit := by
  rw [magnitudeBound, hiddenBit, Nat.mul_comm]
  exact Nat.pow_add 2 fmt.fractionBits fmt.exponentBits

theorem infinity_add_hiddenBit (fmt : Format) :
    fmt.infinity + fmt.hiddenBit = fmt.magnitudeBound := by
  have h : 0 < Nat.pow 2 fmt.exponentBits := Nat.two_pow_pos _
  rw [magnitudeBound_eq, infinity, ← Nat.succ_mul]
  congr 1
  omega

theorem infinity_lt (fmt : Format) : fmt.infinity < fmt.magnitudeBound := by
  have h := fmt.infinity_add_hiddenBit
  have h' := fmt.hiddenBit_pos
  omega

theorem infinity_succ_lt (fmt : Format) :
    fmt.infinity + fmt.hiddenBit / 2 < fmt.magnitudeBound := by
  have h := fmt.infinity_add_hiddenBit
  have h' := fmt.hiddenBit_pos
  omega

end Format

/-- A float of a format: a sign and a magnitude. -/
structure Binary (fmt : Format) where
  negative : Bool
  magnitude : Nat
  magnitude_lt : magnitude < fmt.magnitudeBound
  deriving DecidableEq

/-- A single precision float. -/
abbrev Single := Binary .single

/-- A double precision float. -/
abbrev Double := Binary .double

/-- What a float stands for: no number, an infinity, or `significand * 2 ^ exponent` with a sign,
which a zero keeps as well. -/
inductive Value where
  | nan
  | infinite (negative : Bool)
  | finite (negative : Bool) (significand : Nat) (exponent : Int)
  deriving DecidableEq, Repr

namespace Binary

variable {fmt : Format}

/-- The number a float stands for. -/
def value (x : Binary fmt) : Value :=
  if fmt.infinity < x.magnitude then .nan
  else if x.magnitude = fmt.infinity then .infinite x.negative
  else .finite x.negative (fmt.significand x.magnitude) (fmt.unitExponent x.magnitude)

/-- The float is not a number. -/
def isNaN (x : Binary fmt) : Bool := fmt.infinity < x.magnitude

/-- The float is a number other than an infinity. -/
def isFinite (x : Binary fmt) : Bool := x.magnitude < fmt.infinity

/-- The float is one of the two zeros. -/
def isZero (x : Binary fmt) : Bool := x.magnitude = 0

/-- The zero of a sign. -/
def zero (negative : Bool) : Binary fmt := ⟨negative, 0, Nat.two_pow_pos _⟩

/-- The infinity of a sign. -/
def infinity (negative : Bool) : Binary fmt := ⟨negative, fmt.infinity, fmt.infinity_lt⟩

/-- The plain quiet NaN of a sign: only the top bit of its fraction is set. -/
def nan (negative : Bool) : Binary fmt :=
  ⟨negative, fmt.infinity + fmt.hiddenBit / 2, fmt.infinity_succ_lt⟩

/-- What an operation answers that has no number to answer. -/
def invalid : Binary fmt := nan true

/-- The other sign. -/
def neg (x : Binary fmt) : Binary fmt := { x with negative := !x.negative }

instance : Neg (Binary fmt) := ⟨neg⟩

instance : Inhabited (Binary fmt) := ⟨zero false⟩

/-- The bits of a float as a number: the sign bit stands above the magnitude. -/
def toBits (x : Binary fmt) : Nat :=
  if x.negative then fmt.magnitudeBound + x.magnitude else x.magnitude

/-- The float with the given bits; bits above the sign are ignored. -/
def ofBits (bits : Nat) : Binary fmt :=
  ⟨bits / fmt.magnitudeBound % 2 = 1, bits % fmt.magnitudeBound, Nat.mod_lt _ (Nat.two_pow_pos _)⟩

theorem ofBits_toBits (x : Binary fmt) : ofBits x.toBits = x := by
  obtain ⟨s, m, hm⟩ := x
  have hpos : 0 < fmt.magnitudeBound := Nat.two_pow_pos _
  cases s <;>
    simp [ofBits, toBits, Nat.mod_eq_of_lt hm, Nat.div_eq_of_lt hm, Nat.add_div_left _ hpos]

theorem value_eq_nan_iff {x : Binary fmt} : x.value = .nan ↔ x.isNaN = true := by
  unfold value isNaN
  split
  · simp [*]
  · split <;> simp [*]

theorem isNaN_nan (negative : Bool) : (nan negative : Binary fmt).isNaN = true := by
  have h : 0 < fmt.fractionBits := fmt.fractionBits_pos
  have : 0 < fmt.hiddenBit / 2 := by
    have hdouble : fmt.hiddenBit = Nat.pow 2 (fmt.fractionBits - 1) * 2 :=
      (Nat.two_pow_pred_mul_two h).symm
    rw [hdouble, Nat.mul_div_cancel _ (by decide)]
    exact Nat.two_pow_pos _
  simpa [isNaN, nan] using this

@[simp] theorem neg_neg (x : Binary fmt) : -(-x) = x := by
  cases x
  simp [Neg.neg, neg]

end Binary

end QuantClassifier
