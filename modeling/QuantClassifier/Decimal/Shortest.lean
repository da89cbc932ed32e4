import QuantClassifier.Binary.Arithmetic

/-!
# The shortest decimal of a float

The reals that round to a finite float form an interval around it, ends included if its significand
is even. On the grid of the multiples of a power of ten the only points of interest are the two
neighbours of the float itself. `shortest` takes the coarsest grid with a point in the interval,
which is the one with the fewest digits, and of two such neighbours the nearer one.
-/

namespace QuantClassifier

/-- The number `digits * 10 ^ exponent`. -/
structure Decimal where
  digits : Nat
  exponent : Int
  deriving DecidableEq, Repr

/-- Which of two equally near neighbours is taken. -/
inductive TieRule where
  | upper
  | even
  deriving DecidableEq, Repr

namespace Decimal

/-- The exponent of the leading digit. -/
def leading (d : Decimal) : Int := (Nat.toDigits 10 d.digits).length - 1 + d.exponent

/-- A positive number with the interval of the reals that round to it, all over one denominator. -/
structure Interval where
  lower : Nat
  value : Nat
  upper : Nat
  denominator : Nat
  closed : Bool

/-- The reals that round to `significand * 2 ^ exponent`. Below a power of two floats are twice as
dense, unless it is the least normal number. -/
def interval (fmt : Format) (significand : Nat) (exponent : Int) : Interval :=
  let belowGap := if significand = fmt.hiddenBit ∧ exponent ≠ fmt.minExponent then 1 else 2
  let (scale, den) := scaleTwo 1 1 (exponent - 2)
  { lower := (4 * significand - belowGap) * scale
    value := 4 * significand * scale
    upper := (4 * significand + 2) * scale
    denominator := den
    closed := significand % 2 = 0 }

/-- The neighbour of the value on the grid of the multiples of `10 ^ exponent` that lies in the
interval, if one does. -/
def Interval.onGrid (i : Interval) (tie : TieRule) (exponent : Int) : Option Decimal :=
  let scale := Nat.pow 10 (-exponent).toNat
  let unit := Nat.pow 10 exponent.toNat * i.denominator
  let value := i.value * scale
  let below := value / unit
  let above := below + 1
  let belowIn :=
    if i.closed then i.lower * scale ≤ below * unit else i.lower * scale < below * unit
  let aboveIn :=
    if i.closed then above * unit ≤ i.upper * scale else above * unit < i.upper * scale
  let toBelow := value - below * unit
  let toAbove := above * unit - value
  let takeBelow :=
    if toBelow = toAbove then tie = .even ∧ below % 2 = 0 else toBelow < toAbove
  if belowIn ∧ (¬ aboveIn ∨ takeBelow) then some ⟨below, exponent⟩
  else if aboveIn then some ⟨above, exponent⟩
  else none

/-- An exponent of ten above the leading digit of `significand * 2 ^ exponent`: a power of two has
three tenths of its exponent as decimal digits, and a little more. -/
def coarse (significand : Nat) (exponent : Int) : Int :=
  ((significand.log2 : Int) + exponent) * 30103 / 100000 + 2

/-- The shortest decimal that rounds to `significand * 2 ^ exponent`. A grid with a point in the
interval is reached after as many steps as the significand has bits. -/
def shortest (fmt : Format) (tie : TieRule) (significand : Nat) (exponent : Int) : Decimal :=
  let i := interval fmt significand exponent
  let top := coarse significand exponent
  let steps := List.range (fmt.fractionBits + 4)
  (steps.findSome? fun (k : Nat) => i.onGrid tie (top - k)).getD ⟨significand, 0⟩

end Decimal

end QuantClassifier
