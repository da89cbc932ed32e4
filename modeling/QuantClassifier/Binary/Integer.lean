import QuantClassifier.Binary.Arithmetic

/-!
# Floats and whole numbers

Ways to get from a float to a whole number. `roundTiesEven` stays among the floats; the others give
an integer, and what has none (a NaN or an infinity) is decided by `saturate`.
-/

namespace QuantClassifier.Binary

variable {fmt : Format}

/-- `m * 2 ^ e` rounded to a whole number by a rule for quotients of natural numbers. -/
def roundScaled (rule : Nat → Nat → Nat) (m : Nat) (e : Int) : Nat :=
  let (n, d) := scaleTwo m 1 e
  rule n d

/-- The nearest whole number as a float, ties to the even one; the sign of a zero is kept. -/
def roundTiesEven (x : Binary fmt) : Binary fmt :=
  match x.value with
  | .finite s m e => ofQuotient s (roundScaled roundHalfEven m e) 1 0
  | _ => x

/-- A whole number for a value: `finite` for numbers, the ends of the range from `lo` to `hi` for
what lies outside, and zero for a NaN. -/
def saturate (lo hi : Int) (finite : Bool → Nat → Int → Int) (x : Binary fmt) : Int :=
  match x.value with
  | .nan => 0
  | .infinite s => if s then lo else hi
  | .finite s m e => Max.max lo (min hi (finite s m e))

/-- A magnitude with a sign. -/
def signed (negative : Bool) (n : Nat) : Int := if negative then -n else n

/-- The whole part, within a range. -/
def truncate (lo hi : Int) : Binary fmt → Int :=
  saturate lo hi fun s m e => signed s (roundScaled (· / ·) m e)

/-- The nearest whole number within a range, ties away from zero. -/
def roundHalfAway (lo hi : Int) : Binary fmt → Int :=
  saturate lo hi fun s m e => signed s (roundScaled roundHalfUp m e)

/-- The largest whole number not above the float, within a range. -/
def floor (lo hi : Int) : Binary fmt → Int :=
  saturate lo hi fun s m e =>
    if s then -(roundScaled (fun n d => (n + d - 1) / d) m e : Nat) else roundScaled (· / ·) m e

/-- The least whole number not below the float, within a range. -/
def ceil (lo hi : Int) : Binary fmt → Int :=
  saturate lo hi fun s m e =>
    if s then -(roundScaled (· / ·) m e : Nat) else roundScaled (fun n d => (n + d - 1) / d) m e

theorem saturate_le {lo hi : Int} (finite : Bool → Nat → Int → Int) (x : Binary fmt)
    (hlo : lo ≤ 0) (hhi : 0 ≤ hi) :
    lo ≤ saturate lo hi finite x ∧ saturate lo hi finite x ≤ hi := by
  unfold saturate
  split
  · exact ⟨hlo, hhi⟩
  · split <;> omega
  · omega

end QuantClassifier.Binary
