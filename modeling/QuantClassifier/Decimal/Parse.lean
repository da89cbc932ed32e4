import QuantClassifier.Decimal.Shortest

/-!
# Reading decimals

A number text is an optional sign before `inf`, `infinity` or `nan` in any case, or before digits
with an optional point, at least one digit on either side of it, and an optional exponent. The float
is the one nearest to the exact decimal.
-/

namespace QuantClassifier.Decimal

/-- The number that some digits stand for. -/
def ofDigits (digits : List Char) : Nat :=
  digits.foldl (fun n c => 10 * n + (c.toNat - '0'.toNat)) 0

/-- An ASCII digit. -/
def isDigit (c : Char) : Bool := '0' ≤ c && c ≤ '9'

/-- The number that a text of digits alone stands for. -/
def natural? (cs : List Char) : Option Nat :=
  if cs.isEmpty ∨ !cs.all isDigit then none else some (ofDigits cs)

/-- The sign in front, and what follows it. -/
def splitSign : List Char → Bool × List Char
  | '-' :: cs => (true, cs)
  | '+' :: cs => (false, cs)
  | cs => (false, cs)

/-- An exponent part: nothing, or a letter, an optional sign and digits. -/
def readExponent? : List Char → Option Int
  | [] => some 0
  | c :: cs =>
    if c = 'e' ∨ c = 'E' then
      let (negative, digits) := splitSign cs
      if digits.isEmpty ∨ !digits.all isDigit then none
      else some (if negative then -(ofDigits digits : Int) else ofDigits digits)
    else none

/-- The decimal of a text without a sign. -/
def read? (cs : List Char) : Option Decimal :=
  let whole := cs.takeWhile isDigit
  let rest := cs.dropWhile isDigit
  let (fraction, tail) :=
    match rest with
    | '.' :: r => (r.takeWhile isDigit, r.dropWhile isDigit)
    | r => ([], r)
  if whole.isEmpty ∧ fraction.isEmpty then none
  else (readExponent? tail).map fun e => ⟨ofDigits (whole ++ fraction), e - fraction.length⟩

/-- The float nearest to a decimal. Decimals far beyond the format's range are told by the exponent
of their leading digit, so that no great power of ten is computed. -/
def toBinary (fmt : Format) (negative : Bool) (d : Decimal) : Binary fmt :=
  let bound : Int := Nat.pow 2 fmt.exponentBits
  if d.digits = 0 then .zero negative
  else if bound < d.leading then .infinity negative
  else if d.leading < -bound then .zero negative
  else if 0 ≤ d.exponent then .ofQuotient negative (d.digits * Nat.pow 10 d.exponent.toNat) 1 0
  else .ofQuotient negative d.digits (Nat.pow 10 (-d.exponent).toNat) 0

/-- The float that a text stands for. -/
def parse? (fmt : Format) (text : List Char) : Option (Binary fmt) :=
  let (negative, cs) := splitSign text
  let word := cs.map Char.toLower
  if word = "inf".toList ∨ word = "infinity".toList then some (.infinity negative)
  else if word = "nan".toList then some (.nan negative)
  else (read? cs).map (toBinary fmt negative)

end QuantClassifier.Decimal
