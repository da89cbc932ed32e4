import QuantClassifier.Extent.Basic

/-!
# Arithmetic of extents

Extents are added, multiplied and divided, and each result is written in a simple form: a number if
no names are left, like terms collected, common factors in front. Of several ways to write a result
the cheapest counts.
-/

namespace QuantClassifier.Extent

/-! ## Common divisors -/

mutual

/-- A number that divides an extent. -/
def divisor : Extent → Nat
  | name _ _ => 1
  | number n => n.natAbs
  | sum es | broadcast es | least es | greatest es => commonDivisor es
  | product es => divisorProduct es
  | multiple n e => n.natAbs * divisor e
  | quotient e n => if divisor e % n = 0 then divisor e / n else 1

/-- The greatest number that divides the divisors of all extents. -/
def commonDivisor : List Extent → Nat
  | [] => 0
  | e :: es => Nat.gcd (divisor e) (commonDivisor es)

/-- The product of the divisors. -/
def divisorProduct : List Extent → Nat
  | [] => 1
  | e :: es => divisor e * divisorProduct es

end

mutual

/-- An extent divided by a number that divides it. -/
def divide : Extent → Nat → Extent
  | name i label, d => if d = 1 then name i label else quotient (name i label) d
  | number n, d => number (n.tdiv d)
  | sum es, d => sum (divideEach es d)
  | broadcast es, d => broadcast (divideEach es d)
  | least es, d => least (divideEach es d)
  | greatest es, d => greatest (divideEach es d)
  | product es, d => product (divideFactors es d)
  | multiple n e, d =>
    if n = d then e
    else
      let g := Nat.gcd n.natAbs d
      multiple (n.tdiv g) (divide e (d / g))
  | quotient e n, d => if d = 1 then quotient e n else quotient (divide e d) n

/-- Terms divided by a number that divides each. -/
def divideEach : List Extent → Nat → List Extent
  | [], _ => []
  | e :: es, d => divide e d :: divideEach es d

/-- Factors divided by numbers whose product is a given one. -/
def divideFactors : List Extent → Nat → List Extent
  | [], _ => []
  | e :: es, d =>
    let g := Nat.gcd (divisor e) d
    divide e g :: divideFactors es (d / g)

end

/-! ## Simple forms -/

/-- The number that an extent is. -/
def number? : Extent → Option Int
  | number n => some n
  | _ => none

/-- The extent is a number. -/
def isNumber (n : Int) (e : Extent) : Bool := e.number? = some n

mutual

/-- The terms of a sum, and those of the sums among them; any other extent is its only term. -/
def addends : Extent → List Extent
  | sum es => addendsOfAll es
  | e => [e]

/-- The terms of some extents. -/
def addendsOfAll : List Extent → List Extent
  | [] => []
  | e :: es => addends e ++ addendsOfAll es

end

/-- A term as something and how often it is counted. Numbers are counts of one. -/
def counted : Extent → Extent × Int
  | number n => (number 1, n)
  | multiple n e => (e, n)
  | e => (e, 1)

/-- Counts something more often. -/
def tally (counts : List (Extent × Int)) (more : Extent × Int) : List (Extent × Int) :=
  match counts with
  | [] => [more]
  | (e, n) :: rest =>
    if e.same more.1 then (e, n + more.2) :: rest else (e, n) :: tally rest more

/-- A term that counts something, if it does not count it zero times. -/
def ofCounted (counted : Extent × Int) : Option Extent :=
  let (e, n) := counted
  if n = 0 then none
  else if e.isNumber 1 then some (number n)
  else if n = 1 then some e
  else some (multiple n e)

/-- The simple sum of simple terms. -/
def sumOf (terms : List Extent) : Extent :=
  let counts := (addendsOfAll terms).foldl (fun counts e => tally counts e.counted) []
  match sorted (counts.filterMap ofCounted) with
  | [] => number 0
  | [e] => e
  | es => sum es

/-- The factors of a product; any other extent is its only factor. -/
def factors : Extent → List Extent
  | product es => es
  | e => [e]

/-- The simple product of simple factors. -/
def productOf (simple : Extent → Extent) (es : List Extent) : Extent :=
  let d : Int := divisorProduct es
  if d = 0 then number 0
  else
    let es := if d = 1 then es else es.map fun e => simple (e.divide e.divisor)
    let n := if (es.filter (isNumber (-1))).length % 2 = 1 then -d else d
    match sorted (es.filter fun e => !(e.isNumber 1 || e.isNumber (-1))) with
    | [] => number n
    | [e] => if n = 1 then e else multiple n e
    | es => if n = 1 then product es else multiple n (product es)

/-- The simple multiple of a simple extent. -/
def multipleOf (simple : Extent → Extent) (n : Int) (e : Extent) : Extent :=
  if n = 0 then number 0
  else if n = 1 then e
  else
    match e with
    | sum es => sum (es.map fun e => simple (multiple n e))
    | number m => number (n * m)
    | multiple m e => multiple (n * m) e
    | e => multiple n e

/-- The multiple of a divisor that is taken out of a sum with a number, so that what is left of the
number is neither negative nor as great as the divisor. -/
def wholePart? (d : Nat) (n : Int) : Option Int := if 0 ≤ n ∧ n < d then none else some (n / d)

/-- A name with a minus sign. -/
def isMinusName : Extent → Bool
  | multiple (-1) (name _ _) => true
  | _ => false

/-- The simple quotient of a simple extent. -/
def quotientOf (simple : Extent → Extent) (e : Extent) (d : Nat) : Extent :=
  match e with
  | number n => number (n.tdiv d)
  | sum es =>
    if es.any isMinusName then multiple (-1) (quotient (simple (sum (es.map (multiple (-1))))) d)
    else
      match (es.findSome? number?).bind (wholePart? d) with
      | some n => sum [number n, quotient (simple (sum (es ++ [number (-n * d)]))) d]
      | none => quotient (sum es) d
  | multiple n e =>
    let g := Nat.gcd n.natAbs d
    if n = -1 then multiple (-1) (quotient e d)
    else if n = d then simple e
    else if n = g then quotient e (d / g)
    else if d = g then multiple (n.tdiv g) e
    else if 1 < g then simple (quotient (multiple (n.tdiv g) e) (d / g))
    else quotient (multiple n e) d
  | e => quotient e d

/-- The extents that no other one makes needless. An extent is needless if its difference to another
one is a number that is wide of the mark. -/
def undominated (wide : Int → Bool) (simple : Extent → Extent) (es : List Extent) : List Extent :=
  es.foldl (fun kept e =>
    let isBetter (other : Extent) :=
      !other.same e && (simple (sum [e, multiple (-1) other])).number?.any wide
    if kept.any isBetter then kept.filter fun k => !k.same e else kept) es

/-- Simplifies an extent. The number bounds the steps. -/
def simplify : Nat → Extent → Extent
  | 0, e => e
  | steps + 1, e =>
    let simple := simplify steps
    match e with
    | name _ _ | number _ => e
    | sum es => sumOf (es.map simple)
    | product es => productOf simple (es.flatMap fun e => (simple e).factors)
    | multiple n (multiple m e) => simple (multiple (n * m) e)
    | multiple n e => multipleOf simple n (simple e)
    | quotient (quotient e n) d => simple (quotient e (d * n))
    | quotient e d => if d = 1 then simple e else quotientOf simple (simple e) d
    | broadcast es =>
      let es := es.flatMap fun e =>
        match simple e with
        | broadcast es => es
        | e => [e]
      match distinct (es.filter fun e => !e.isNumber 1) with
      | [] => number 1
      | [e] => e
      | es => broadcast es
    | least es =>
      let es := es.flatMap fun e =>
        match simple e with
        | least es => es
        | e => [e]
      match undominated (0 ≤ ·) simple (distinct es) with
      | [] => number 0x7FFFFFFFFFFFFFFF
      | [e] => e
      | es => least es
    | greatest es =>
      let es := es.flatMap fun e =>
        match simple e with
        | greatest es => es
        | e => [e]
      match undominated (· ≤ 0) simple (distinct es) with
      | [] => number (-0x8000000000000000)
      | [e] => e
      | es => greatest es

/-- The simple form of an extent. -/
def simpleForm (e : Extent) : Extent :=
  match e.value? with
  | some n => number n
  | none => if e.hasName then simplify (8 * (e.size + 1)) e else e

/-! ## Cheapest forms -/

mutual

/-- What it costs to write an extent. -/
def cost : Extent → Nat
  | name _ _ | number _ => 1
  | sum es => 2 * costs es
  | product es => 3 * costs es
  | broadcast es => 4 * costs es
  | least es | greatest es => 5 * costs es
  | quotient e _ => 3 * cost e
  | multiple _ e => 2 * cost e

/-- What some extents cost together. -/
def costs : List Extent → Nat
  | [] => 0
  | e :: es => cost e + costs es

end

/-- A sum with a quotient in it as one quotient. -/
def mergeQuotient? (terms : List Extent) : Option Extent := do
  let (e, n, i) ← terms.zipIdx.findSome? fun
    | (quotient e n, i) => some (e, n, i)
    | _ => none
  let numerator := terms.zipIdx.map fun (t, j) => if j = i then e else multiple n t
  return quotient (sum numerator) n

/-- A quotient of a sum as a sum, in which terms that the number divides are divided. -/
def splitQuotient? (e : Extent) (n : Nat) : Option Extent :=
  match e with
  | sum terms =>
    let (whole, rest) := terms.partition fun t => t.divisor % n = 0
    some (sum (whole.map (divide · n) ++ if rest.isEmpty then [] else [quotient (sum rest) n]))
  | _ => none

mutual

/-- Ways to write an extent. -/
def forms : Extent → List Extent
  | sum es => (formsOfAll es).flatMap fun terms => (mergeQuotient? terms).toList ++ [sum terms]
  | multiple n e => (forms e).map (multiple n)
  | quotient e n => (forms e).flatMap fun e => (splitQuotient? e n).toList ++ [quotient e n]
  | name i label => [name i label]
  | number n => [number n]
  | product es => [product es]
  | broadcast es => [broadcast es]
  | least es => [least es]
  | greatest es => [greatest es]

/-- Ways to write some extents. -/
def formsOfAll : List Extent → List (List Extent)
  | [] => [[]]
  | e :: es => (forms e).flatMap fun f => (formsOfAll es).map (f :: ·)

end

/-- The first of the cheapest extents. -/
def cheapest (first : Extent) (others : List Extent) : Extent :=
  others.foldl (fun best e => if e.cost < best.cost then e else best) first

/-- The simple form that is the cheapest to write. -/
def reduce (e : Extent) : Extent :=
  match (sorted e.simpleForm.forms).map simpleForm with
  | [] => e.simpleForm
  | first :: others => cheapest first others

/-! ## Operations -/

/-- The extent with the other sign. -/
def negate : Extent → Extent
  | number n => number (-n)
  | e => reduce (multiple (-1) e)

/-- The sum of two extents. -/
def add (x y : Extent) : Extent :=
  if y.isNumber 0 then x else if x.isNumber 0 then y else reduce (sum [x, y])

/-- The difference of two extents. -/
def subtract (x y : Extent) : Extent :=
  if y.isNumber 0 then x else if x.isNumber 0 then negate y else reduce (sum [x, negate y])

/-- The product of two extents. -/
def multiply (x y : Extent) : Extent :=
  if x.isNumber 1 then y else if y.isNumber 1 then x else reduce (product [y, x])

/-- The whole part of the quotient by a number, which must not be zero. -/
def divideBy? (x : Extent) (n : Nat) : Option Extent :=
  if n = 0 then none else if n = 1 then some x else some (reduce (quotient x n))

/-- The common length of axes that are stretched to each other. -/
def stretch (x y : Extent) : Extent :=
  if x.isNumber 1 then y else if y.isNumber 1 then x else simpleForm (broadcast [x, y])

end QuantClassifier.Extent
