import QuantClassifier.Binary.Arithmetic
import QuantClassifier.Wire.Record

/-!
# Decoded messages

A message is the list of the fields that are present, by ascending number, the values of a repeated
field in their order. Repeated numbers are one value, as they are written. Two messages agree if
they hold equal values; floats are compared as numbers, so that a message with a NaN agrees with
none.
-/

namespace QuantClassifier.Onnx

open Wire (Bytes)

/-- The value of a field. Texts are held as their bytes. -/
inductive Value where
  | int (n : Int)
  | float (x : Single)
  | double (x : Double)
  | bytes (b : Bytes)
  | ints (ns : List Int)
  | floats (xs : List Single)
  | doubles (xs : List Double)
  | message (fields : List (Nat × Value))

/-- The fields that are present. -/
abbrev Message := List (Nat × Value)

namespace Value

/-- The value is what an absent field reads as. -/
def isDefault : Value → Bool
  | int n => n = 0
  | float x => x.isZero
  | double x => x.isZero
  | bytes b => b.isEmpty
  | ints ns => ns.isEmpty
  | floats xs => xs.isEmpty
  | doubles xs => xs.isEmpty
  | message _ => false

/-- Repeated numbers followed by more of the same kind. -/
def append : Value → Value → Value
  | ints ns, ints ns' => ints (ns ++ ns')
  | floats xs, floats xs' => floats (xs ++ xs')
  | doubles xs, doubles xs' => doubles (xs ++ xs')
  | _, v => v

/-- The fields of a message. -/
def message? : Value → Option Message
  | message m => some m
  | _ => none

/-- Two lists agree element by element. -/
def allAgree {α : Type} (p : α → α → Bool) : List α → List α → Bool
  | [], [] => true
  | a :: as, b :: bs => p a b && allAgree p as bs
  | _, _ => false

mutual

/-- Equality of values, floats compared as numbers. -/
def agrees : Value → Value → Bool
  | int n, int n' => n = n'
  | float x, float y => x.eqv y
  | double x, double y => x.eqv y
  | bytes b, bytes b' => b = b'
  | ints ns, ints ns' => ns = ns'
  | floats xs, floats ys => allAgree Binary.eqv xs ys
  | doubles xs, doubles ys => allAgree Binary.eqv xs ys
  | message m, message m' => fieldsAgree m m'
  | _, _ => false

/-- The same numbers hold values that agree. -/
def fieldsAgree : List (Nat × Value) → List (Nat × Value) → Bool
  | [], [] => true
  | (n, v) :: m, (n', v') :: m' => n = n' && agrees v v' && fieldsAgree m m'
  | _, _ => false

end

end Value

namespace Message

/-- The first value of a field. -/
def get? (m : Message) (number : Nat) : Option Value :=
  (m.find? (·.1 = number)).map (·.2)

/-- The first message in a field. -/
def child? (m : Message) (number : Nat) : Option Message :=
  (m.get? number).bind Value.message?

/-- All messages in a field. -/
def children (m : Message) (number : Nat) : List Message :=
  (m.filter (·.1 = number)).filterMap (·.2.message?)

/-- The bytes in a field, none if it is absent. -/
def bytesOf (m : Message) (number : Nat) : Bytes :=
  match m.get? number with
  | some (.bytes b) => b
  | _ => []

/-- The number in a field, zero if it is absent. -/
def intOf (m : Message) (number : Nat) : Int :=
  match m.get? number with
  | some (.int n) => n
  | _ => 0

/-- All texts in a field. -/
def textsOf (m : Message) (number : Nat) : List Bytes :=
  (m.filter (·.1 = number)).filterMap fun
    | (_, .bytes b) => some b
    | _ => none

/-- The whole numbers in a repeated field. -/
def integersOf (m : Message) (number : Nat) : List Int :=
  match m.get? number with
  | some (.ints ns) => ns
  | _ => []

/-- The single precision floats in a repeated field. -/
def floatsOf (m : Message) (number : Nat) : List Single :=
  match m.get? number with
  | some (.floats xs) => xs
  | _ => []

/-- The double precision floats in a repeated field. -/
def doublesOf (m : Message) (number : Nat) : List Double :=
  match m.get? number with
  | some (.doubles xs) => xs
  | _ => []

/-- The message without a field. -/
def erase (m : Message) (number : Nat) : Message := m.filter (·.1 ≠ number)

/-- Gives a field a single value, in its place. -/
def put (number : Nat) (v : Value) : Message → Message
  | [] => [(number, v)]
  | (k, w) :: m =>
    if k < number then (k, w) :: put number v m
    else if k = number then (number, v) :: m
    else (number, v) :: (k, w) :: m

/-- Adds a value to a field, after those it has. -/
def push (number : Nat) (v : Value) : Message → Message
  | [] => [(number, v)]
  | (k, w) :: m => if k ≤ number then (k, w) :: push number v m else (number, v) :: (k, w) :: m

/-- Replaces the first message in a field. -/
def modifyChild (number : Nat) (f : Message → Message) : Message → Message
  | [] => []
  | (k, v) :: m =>
    if k = number then
      match v with
      | .message sub => (k, .message (f sub)) :: m
      | _ => (k, v) :: modifyChild number f m
    else (k, v) :: modifyChild number f m

/-- Two messages hold the same values. -/
def agrees (m m' : Message) : Bool := Value.fieldsAgree m m'

end Message

end QuantClassifier.Onnx
