import QuantClassifier.Decimal.Shortest

/-!
# Number texts

A text of a float is its shortest digits and a style: which exponents are written positionally, how
whole numbers and exponents look, and what stands for the values that have no digits.
-/

namespace QuantClassifier.Decimal

/-- How floats are written. -/
structure Style where
  tie : TieRule
  /-- Leading digits with these exponents are written positionally. -/
  positional : Int → Bool
  /-- Positional whole numbers get `.0`. -/
  wholeFraction : Bool
  /-- Exponents that are not negative get a plus sign. -/
  plusExponent : Bool
  nan : String
  /-- The text of infinity; the sign of a negative one comes before it. -/
  infinity : String
  /-- Signs of infinities are written. -/
  signedInfinity : Bool

/-- A number of zeros. -/
def zeros (n : Int) : List Char := List.replicate n.toNat '0'

/-- Digits with the point that their exponent asks for. -/
def positional (wholeFraction : Bool) (digits : List Char) (exponent : Int) : List Char :=
  let point := digits.length + exponent
  if 0 ≤ exponent then
    digits ++ zeros exponent ++ (if wholeFraction then ['.', '0'] else [])
  else if 0 < point then digits.take point.toNat ++ '.' :: digits.drop point.toNat
  else '0' :: '.' :: zeros (-point) ++ digits

/-- Digits with the point after the first one, and the exponent of that digit. -/
def scientific (plusExponent : Bool) (digits : List Char) (exponent : Int) : List Char :=
  let leading := digits.length - 1 + exponent
  let mantissa :=
    match digits with
    | [] => []
    | [d] => [d]
    | d :: ds => d :: '.' :: ds
  let sign := if plusExponent ∧ 0 ≤ leading then ['+'] else []
  mantissa ++ 'e' :: sign ++ (toString leading).toList

/-- The text of a decimal. -/
def render (style : Style) (d : Decimal) : List Char :=
  let digits := Nat.toDigits 10 d.digits
  if style.positional d.leading then positional style.wholeFraction digits d.exponent
  else scientific style.plusExponent digits d.exponent

/-- The text of a float. -/
def text {fmt : Format} (style : Style) (x : Binary fmt) : String :=
  let sign (negative : Bool) (s : String) : String := if negative then "-" ++ s else s
  match x.value with
  | .nan => style.nan
  | .infinite s => sign (s && style.signedInfinity) style.infinity
  | .finite s m e =>
    let chars :=
      if m = 0 then positional style.wholeFraction ['0'] 0
      else render style (shortest fmt style.tie m e)
    sign s (String.ofList chars)

/-- Plain texts have no exponents. -/
def plain : Style where
  tie := .upper
  positional := fun _ => true
  wholeFraction := false
  plusExponent := false
  nan := "NaN"
  infinity := "inf"
  signedInfinity := true

/-- Inspected values show that they are floats, and very large or small ones in scientific form. -/
def inspected : Style where
  tie := .upper
  positional := fun leading => -4 ≤ leading && leading < 16
  wholeFraction := true
  plusExponent := false
  nan := "NaN"
  infinity := "inf"
  signedInfinity := true

/-- Numbers of a JSON document, which has no NaN and no infinities. -/
def json (least greatest : Int) : Style where
  tie := .even
  positional := fun leading => least ≤ leading && leading ≤ greatest
  wholeFraction := true
  plusExponent := true
  nan := "null"
  infinity := "null"
  signedInfinity := false

/-- JSON numbers of single precision. -/
def jsonSingle : Style := json (-6) 12

/-- JSON numbers of double precision. -/
def jsonDouble : Style := json (-5) 15

/-- The float to a fixed number of places, ties to even. Every digit of its exact value counts. -/
def fixed {fmt : Format} (places : Nat) (x : Binary fmt) : String :=
  match x.value with
  | .nan => "NaN"
  | .infinite s => if s then "-inf" else "inf"
  | .finite s m e =>
    let (num, den) := scaleTwo (m * Nat.pow 10 places) 1 e
    let digits := Nat.toDigits 10 (roundHalfEven num den)
    let padded := zeros (places + 1 - digits.length) ++ digits
    let whole := padded.take (padded.length - places)
    let fraction := padded.drop (padded.length - places)
    let point := if places = 0 then [] else ['.']
    String.ofList ((if s then ['-'] else []) ++ whole ++ point ++ fraction)

end QuantClassifier.Decimal
