import QuantClassifier.Failure

/-!
# Delegates

A delegate runs models. Both delegates of this library run them the same way, but one of them is
stricter about the names of inputs; the hardware delegate is known by name only.
-/

namespace QuantClassifier

/-- The available delegates. -/
inductive Delegate where
  | optimized
  | unoptimized
  deriving DecidableEq, Repr

namespace Delegate

/-- The name by which a delegate is asked for. -/
def name : Delegate → String
  | optimized => "default"
  | unoptimized => "unoptimized"

/-- The name of a delegate where it is shown as a value. -/
def label : Delegate → String
  | optimized => "DefaultDelegate"
  | unoptimized => "UnoptimizedDelegate"

/-- The names of the available delegates. -/
def names : List String := [optimized.name, unoptimized.name]

/-- The name of the hardware delegate. -/
def hardware : String := "npu"

/-- The delegate of a name. -/
def ofName (s : String) : Except Failure Delegate :=
  let available := ", ".intercalate names
  let unavailable (what : String) : Except Failure Delegate :=
    .error (.ofKind (.delegateUnavailable s!"{what}, available: {available}"))
  if s = optimized.name then .ok optimized
  else if s = unoptimized.name then .ok unoptimized
  else if s = hardware then unavailable s!"{s} (htp backend) is not available in this build"
  else unavailable s!"unknown delegate {s}"

theorem ofName_name (d : Delegate) : ofName d.name = .ok d := by
  cases d <;> simp [ofName, name]

end Delegate

end QuantClassifier
