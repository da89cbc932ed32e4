import QuantClassifier.Binary.Rounding

/-!
# Arithmetic and order of floats

Each operation computes on the values its operands stand for and rounds once. A NaN operand is
passed on, the first of two. Order needs no values: a float other than NaN compares as its magnitude
with its sign (`orderKey`), and the total order of all floats, NaNs included, puts the negative ones
below the positive ones (`totalKey`).
-/

namespace QuantClassifier.Binary

variable {fmt : Format}

/-- The sum of two finite values; an exact zero is negative only if both operands are. -/
def addFinite (s : Bool) (m : Nat) (e : Int) (s' : Bool) (m' : Nat) (e' : Int) : Binary fmt :=
  let unit := min e e'
  let a : Int := m * Nat.pow 2 (e - unit).toNat
  let b : Int := m' * Nat.pow 2 (e' - unit).toNat
  let sum := (if s then -a else a) + (if s' then -b else b)
  if sum = 0 then zero (s && s') else ofScaled sum unit

/-- A NaN with the top bit of its fraction set. -/
def quiet (x : Binary fmt) : Binary fmt :=
  if h : x.magnitude + fmt.hiddenBit / 2 < fmt.magnitudeBound then
    ⟨x.negative, x.magnitude + fmt.hiddenBit / 2, h⟩
  else x

/-- The sum, rounded. -/
def add (x y : Binary fmt) : Binary fmt :=
  match x.value, y.value with
  | .nan, _ => x.quiet
  | _, .nan => y.quiet
  | .infinite s, .infinite s' => if s = s' then infinity s else invalid
  | .infinite s, .finite .. => infinity s
  | .finite .., .infinite s => infinity s
  | .finite s m e, .finite s' m' e' => addFinite s m e s' m' e'

/-- The difference, rounded. -/
def sub (x y : Binary fmt) : Binary fmt := add x (-y)

/-- The product, rounded. -/
def mul (x y : Binary fmt) : Binary fmt :=
  match x.value, y.value with
  | .nan, _ => x.quiet
  | _, .nan => y.quiet
  | .infinite s, .infinite s' => infinity (s != s')
  | .infinite s, .finite s' m _ => if m = 0 then invalid else infinity (s != s')
  | .finite s m _, .infinite s' => if m = 0 then invalid else infinity (s != s')
  | .finite s m e, .finite s' m' e' => ofQuotient (s != s') (m * m') 1 (e + e')

/-- The quotient, rounded. -/
def div (x y : Binary fmt) : Binary fmt :=
  match x.value, y.value with
  | .nan, _ => x.quiet
  | _, .nan => y.quiet
  | .infinite _, .infinite _ => invalid
  | .infinite s, .finite s' _ _ => infinity (s != s')
  | .finite s _ _, .infinite s' => zero (s != s')
  | .finite s m e, .finite s' m' e' =>
    if m' = 0 then
      if m = 0 then invalid else infinity (s != s')
    else ofQuotient (s != s') m m' (e - e')

instance : Add (Binary fmt) := ⟨add⟩
instance : Sub (Binary fmt) := ⟨sub⟩
instance : Mul (Binary fmt) := ⟨mul⟩
instance : Div (Binary fmt) := ⟨div⟩

/-- The NaN of another format with the same sign and the same leading fraction bits. -/
def convertNaN {src : Format} (dst : Format) (x : Binary src) : Binary dst :=
  let fraction := (x.magnitude - src.infinity) * dst.hiddenBit / src.hiddenBit % dst.hiddenBit
  quiet ⟨x.negative, dst.infinity + fraction, by
    have h := Nat.mod_lt ((x.magnitude - src.infinity) * dst.hiddenBit / src.hiddenBit)
      dst.hiddenBit_pos
    have h' := dst.infinity_add_hiddenBit
    omega⟩

/-- The nearest float of another format. -/
def convert {src : Format} (dst : Format) (x : Binary src) : Binary dst :=
  match x.value with
  | .nan => x.convertNaN dst
  | .infinite s => infinity s
  | .finite s m e => ofQuotient s m 1 e

/-- A single precision float as a double precision one, which holds it exactly. -/
def toDouble (x : Single) : Double := x.convert .double

/-- The single precision float nearest to a double precision one. -/
def toSingle (x : Double) : Single := x.convert .single

/-- Numbers compare as their keys; both zeros have key zero. -/
def orderKey (x : Binary fmt) : Int := if x.negative then -(x.magnitude : Int) else x.magnitude

/-- Equality of numbers: NaN equals nothing and the zeros equal each other. -/
def eqv (x y : Binary fmt) : Bool := !x.isNaN && !y.isNaN && x.orderKey = y.orderKey

/-- Strict order of numbers; false with a NaN. -/
def less (x y : Binary fmt) : Bool := !x.isNaN && !y.isNaN && x.orderKey < y.orderKey

/-- The larger of two numbers, and the number if the other is a NaN. -/
def max (x y : Binary fmt) : Binary fmt := if x.isNaN || x.less y then y else x

/-- The nearest float of the range from `lo` to `hi`; a NaN stays one. -/
def clamp (x lo hi : Binary fmt) : Binary fmt :=
  if x.less lo then lo else if hi.less x then hi else x

/-- The magnitude without its sign. -/
def abs (x : Binary fmt) : Binary fmt := { x with negative := false }

/-- Keys of the total order: negative NaNs, `-∞`, …, `-0`, `0`, …, `∞`, positive NaNs. -/
def totalKey (x : Binary fmt) : Int := if x.negative then -(x.magnitude : Int) - 1 else x.magnitude

theorem totalKey_injective {x y : Binary fmt} (h : x.totalKey = y.totalKey) : x = y := by
  obtain ⟨s, m, hm⟩ := x
  obtain ⟨s', m', hm'⟩ := y
  cases s <;> cases s' <;> simp [totalKey] at h ⊢ <;> omega

/-- The sum of a list, from the left, starting at negative zero so that the sum of one float is
that float. -/
def sum (xs : List (Binary fmt)) : Binary fmt := xs.foldl (· + ·) (zero true)

end QuantClassifier.Binary
