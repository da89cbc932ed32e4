import QuantClassifier.Wire.Record

/-!
# Updating one nested payload

A path of field numbers selects a payload: at each level the first delimited record with the next
number. `update` replaces the selected payload by what a function makes of it. Enclosing records get
a new length; every other record is written back as it was read.
-/

namespace QuantClassifier.Wire

/-- An update fails because a message on the way is malformed or because the function that makes the
new payload does. -/
inductive UpdateError (ε : Type) where
  | malformed (e : Error)
  | leaf (e : ε)

/-- A list cut at the first element that passes a test: those before it, the element, and those
after it. -/
def splitAtFirst {α : Type} (p : α → Bool) : List α → Option (List α × α × List α)
  | [] => none
  | a :: as =>
    if p a then some ([], a, as)
    else (splitAtFirst p as).map fun (before, b, after) => (a :: before, b, after)

theorem eq_of_splitAtFirst {α : Type} {p : α → Bool} {as before after : List α} {a : α}
    (h : splitAtFirst p as = some (before, a, after)) :
    as = before ++ a :: after ∧ p a = true ∧ ∀ b ∈ before, p b = false := by
  induction as generalizing before with
  | nil => cases h
  | cons x xs ih =>
    unfold splitAtFirst at h
    split at h
    · cases h
      simp_all
    · obtain ⟨⟨before', b, after'⟩, hs, he⟩ := Option.map_eq_some_iff.1 h
      cases he
      obtain ⟨rfl, hp, hb⟩ := ih hs
      simp_all

/-- The record can be entered on a path that continues with `number`. -/
def Record.isStep (number : Nat) (r : Record) : Bool :=
  r.number = number && r.wireType = .lengthDelimited

/-- Replaces the payload at the end of `path` by what `leaf` makes of it; `none` if some message on
the way has no record to enter. -/
def update {ε : Type} (leaf : Bytes → Except ε Bytes) :
    (path : List Nat) → Bytes → Except (UpdateError ε) (Option Bytes)
  | [], msg => return some (← (leaf msg).mapError .leaf)
  | number :: path, msg => do
    let records ← (Record.readAll msg).mapError .malformed
    match splitAtFirst (Record.isStep number) records with
    | none => return none
    | some (before, step, after) =>
      match ← update leaf path step.payload with
      | none => return none
      | some inner => return some (Record.writeAll (before ++ .delimited number inner :: after))

end QuantClassifier.Wire
