/-!
# Extents

The length of an axis as an expression over named lengths. Names are ordered by the numbers that
they were given; the order of extents puts names first, then numbers, and then the other kinds, the
shorter lists of a kind before the longer ones.
-/

namespace QuantClassifier

/-- A length in terms of named lengths. -/
inductive Extent where
  | name (index : Nat) (label : String)
  | number (n : Int)
  | sum (terms : List Extent)
  | product (factors : List Extent)
  | multiple (n : Int) (e : Extent)
  /-- The common length of axes that are stretched to each other. -/
  | broadcast (es : List Extent)
  | least (es : List Extent)
  | greatest (es : List Extent)
  /-- The whole part of a quotient. -/
  | quotient (e : Extent) (n : Nat)

namespace Extent

/-! ## Order -/

/-- The kinds in their order. -/
def rank : Extent → Nat
  | name _ _ => 0
  | number _ => 1
  | sum _ => 2
  | product _ => 3
  | multiple _ _ => 4
  | broadcast _ => 5
  | least _ => 6
  | greatest _ => 7
  | quotient _ _ => 8

mutual

/-- The order of two extents. -/
def order : Extent → Extent → Ordering
  | name i _, name j _ => compare i j
  | number n, number m => compare n m
  | sum xs, sum ys => (compare xs.length ys.length).then (orderAll xs ys)
  | product xs, product ys => (compare xs.length ys.length).then (orderAll xs ys)
  | broadcast xs, broadcast ys => (compare xs.length ys.length).then (orderAll xs ys)
  | least xs, least ys => (compare xs.length ys.length).then (orderAll xs ys)
  | greatest xs, greatest ys => (compare xs.length ys.length).then (orderAll xs ys)
  | multiple n x, multiple m y => (compare n m).then (order x y)
  | quotient x n, quotient y m => (compare n m).then (order x y)
  | x, y => compare x.rank y.rank

/-- The order of two lists, decided by the first place where they differ. -/
def orderAll : List Extent → List Extent → Ordering
  | x :: xs, y :: ys => (order x y).then (orderAll xs ys)
  | _, _ => .eq

end

/-- Two extents are written the same. -/
def same (x y : Extent) : Bool := (order x y).isEq

/-- Extents in their order. -/
def sorted (es : List Extent) : List Extent := es.mergeSort fun x y => (order x y).isLE

/-- Extents in their order, each of them once. -/
def distinct (es : List Extent) : List Extent :=
  (sorted es).foldr (fun e rest => if rest.head?.any (same e) then rest else e :: rest) []

/-! ## Texts -/

mutual

/-- The text of an extent. -/
def text : Extent → String
  | name _ label => label
  | number n => toString n
  | sum terms => "+".intercalate (texts terms)
  | product factors => "*".intercalate ((texts factors).map fun t => s!"({t})")
  | multiple n e => s!"{n}*{text e}"
  | broadcast es => "#".intercalate ((texts es).map fun t => s!"({t})")
  | least es => "min(" ++ ",".intercalate (texts es) ++ ")"
  | greatest es => "max(" ++ ",".intercalate (texts es) ++ ")"
  | quotient e n => s!"({text e})/{n}"

/-- The texts of some extents. -/
def texts : List Extent → List String
  | [] => []
  | e :: es => text e :: texts es

end

/-! ## Values -/

/-- The length of two axes that are stretched to each other: one that is not one. -/
def stretch? (n m : Int) : Option Int :=
  if n = 1 then some m else if m = 1 ∨ n = m then some n else none

mutual

/-- The number that an extent without names amounts to. -/
def value? : Extent → Option Int
  | name _ _ => none
  | number n => some n
  | sum terms => do return (← values? terms).foldl (· + ·) 0
  | product factors => do return (← values? factors).foldl (· * ·) 1
  | multiple n e => do return n * (← value? e)
  | broadcast es => do (← values? es).foldlM stretch? 1
  | least es => do return (← values? es).foldl min 0x7FFFFFFFFFFFFFFF
  | greatest es => do return (← values? es).foldl max (-0x8000000000000000)
  | quotient e n => do return (← value? e).tdiv n

/-- The numbers that extents without names amount to. -/
def values? : List Extent → Option (List Int)
  | [] => some []
  | e :: es => do return (← value? e) :: (← values? es)

end

mutual

/-- The extent speaks of a named length. -/
def hasName : Extent → Bool
  | name _ _ => true
  | number _ => false
  | sum es | product es | broadcast es | least es | greatest es => anyHasName es
  | multiple _ e | quotient e _ => hasName e

/-- One of the extents speaks of a named length. -/
def anyHasName : List Extent → Bool
  | [] => false
  | e :: es => hasName e || anyHasName es

end

mutual

/-- The number of steps that suffices to go through an extent. -/
def size : Extent → Nat
  | name _ _ | number _ => 1
  | sum es | product es | broadcast es | least es | greatest es => 1 + sizes es
  | multiple _ e | quotient e _ => 1 + size e

/-- The sizes of some extents together. -/
def sizes : List Extent → Nat
  | [] => 0
  | e :: es => size e + sizes es

end

end Extent

end QuantClassifier
