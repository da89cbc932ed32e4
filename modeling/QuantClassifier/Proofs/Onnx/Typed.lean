import QuantClassifier.Proofs.Onnx.Absorbing
import QuantClassifier.Proofs.Onnx.ScalarCoding

/-!
# Messages of a type

The messages that stand for the values of a message type: each field is one of the type and holds
what the schema says, a field that is absent when it holds its default does not hold it, and the
fields stand in the order in which they are written (`Message.isOf`). A message of a type has
messages of their types below it.
-/

namespace QuantClassifier.Onnx

open Wire

namespace Field

/-- The values of the field stand one by one, as messages and texts do, and numbers do not. -/
def isListed (f : Field) : Bool :=
  f.label = .repeated && match f.type with
    | .message _ => true
    | .scalar s => s.isDelimited

/-- A value of the field can stand behind one with another number, or behind one of its own. -/
def mayFollow (f : Field) (number : Nat) : Bool :=
  number ∉ f.label.others && (number < f.number || number = f.number && f.isListed)

end Field

mutual

/-- A field can hold the value. -/
def Value.fits : Value → Field → Bool
  | .message m, f =>
    match f.type with
    | .message t => fieldsFit m t
    | .scalar _ => false
  | v, f =>
    match f.type, f.label with
    | .message _, _ => false
    | .scalar s, .repeated => s.isEntry v
    | .scalar s, .singular => s.isOne v && !v.isDefault
    | .scalar s, _ => s.isOne v

/-- The fields are fields of a message type, hold what they can hold, and follow each other. -/
def fieldsFit : List (Nat × Value) → MessageType → Bool
  | [], _ => true
  | (number, v) :: m, t =>
    (t.field? number).any v.fits && m.all (fun p => (t.field? p.1).any (·.mayFollow number)) &&
      fieldsFit m t

end

/-- The message is one of a type. -/
def Message.isOf (m : Message) (t : MessageType) : Bool := fieldsFit m t

section Typed

variable {t child : MessageType} {f : Field} {m sub : Message} {number : Nat} {v : Value}

theorem Message.isOf_cons : Message.isOf ((number, v) :: m) t = true ↔
    (∃ f, t.field? number = some f ∧ v.fits f = true) ∧
    (∀ p ∈ m, ∃ f, t.field? p.1 = some f ∧ f.mayFollow number = true) ∧ m.isOf t = true := by
  simp only [isOf, fieldsFit, Bool.and_eq_true, Option.any_eq_true, List.all_eq_true, and_assoc]

theorem Value.fits_message : (Value.message sub).fits f = true ↔
    ∃ child, f.type = .message child ∧ Message.isOf sub child = true := by
  rw [fits]
  cases hf : f.type with
  | message child => simp [Message.isOf]
  | scalar s => simp

/-- A field of scalars holds an entry where it is repeated, and elsewhere a single value, which is not
the default where that would be left out. -/
theorem Value.fits_scalar {s : Scalar} (hf : f.type = .scalar s) : v.fits f = true ↔
    (f.label = .repeated ∧ s.isEntry v = true) ∨
      (f.label ≠ .repeated ∧ s.isOne v = true ∧ (f.label = .singular → v.isDefault = false)) := by
  cases v with
  | message sub => simp [fits_message, hf, Scalar.isEntry, Scalar.isOne]
  | _ =>
    rw [fits, hf]
    · cases f.label <;> simp
    · intro sub hsub
      cases hsub

/-- What fits is a message in a field of messages or a scalar in a field of scalars. -/
theorem Value.cases_of_fits (h : v.fits f = true) :
    (∃ child sub, f.type = .message child ∧ v = .message sub ∧ Message.isOf sub child = true) ∨
    ∃ s, f.type = .scalar s ∧ ((f.label = .repeated ∧ s.isEntry v = true) ∨
      (f.label ≠ .repeated ∧ s.isOne v = true ∧ (f.label = .singular → v.isDefault = false))) := by
  cases hf : f.type with
  | message child =>
    cases v with
    | message sub =>
      obtain ⟨child', htype, hsub⟩ := fits_message.1 h
      cases hf.symm.trans htype
      exact Or.inl ⟨child, sub, rfl, rfl, hsub⟩
    | _ =>
      rw [fits, hf] at h
      · cases h
      · intro sub hsub
        cases hsub
  | scalar s => exact Or.inr ⟨s, rfl, (fits_scalar hf).1 h⟩

namespace Message

/-- The second entry may stand behind the first one. -/
def Follows (t : MessageType) (p q : Nat × Value) : Prop :=
  ∃ f, t.field? q.1 = some f ∧ f.mayFollow p.1 = true

/-- A message is one of a type by its entries and by how each two of them follow each other. -/
theorem isOf_iff : m.isOf t = true ↔
    (∀ p ∈ m, ∃ f, t.field? p.1 = some f ∧ p.2.fits f = true) ∧ m.Pairwise (Follows t) := by
  induction m with
  | nil => simp [isOf, fieldsFit]
  | cons p m ih =>
    obtain ⟨k, u⟩ := p
    rw [isOf_cons, ih, List.forall_mem_cons, List.pairwise_cons]
    constructor
    · rintro ⟨hhead, hbehind, hentries, hpairs⟩
      exact ⟨⟨hhead, hentries⟩, hbehind, hpairs⟩
    · rintro ⟨⟨hhead, hentries⟩, hbehind, hpairs⟩
      exact ⟨hhead, hbehind, hentries, hpairs⟩

theorem field?_of_isOf (h : m.isOf t = true) : ∀ p ∈ m, ∃ f, t.field? p.1 = some f ∧
    p.2.fits f = true :=
  (isOf_iff.1 h).1

theorem mem_of_get? (h : m.get? number = some v) : (number, v) ∈ m := by
  obtain ⟨⟨k, u⟩, hfind, rfl⟩ := Option.map_eq_some_iff.1 h
  have hk : k = number := by simpa using List.find?_some hfind
  subst hk
  exact List.mem_of_find?_eq_some hfind

/-- The messages below a message of a type are of their types. -/
theorem isOf_child? (h : m.isOf t = true) (hchild : t.childType? number = some child)
    (hsub : m.child? number = some sub) : sub.isOf child = true := by
  obtain ⟨f, hf, htype⟩ := MessageType.childType?_eq_some_iff.1 hchild
  obtain ⟨f', hf', hfits⟩ := field?_of_isOf h _ (mem_of_get? (child?_eq_some_iff.1 hsub))
  cases hf.symm.trans hf'
  obtain ⟨child', htype', hsubOf⟩ := Value.fits_message.1 hfits
  cases htype.symm.trans htype'
  exact hsubOf

end Message

end Typed

end QuantClassifier.Onnx
