/-!
# Variable length integers

A number below `2 ^ 64` is written in base 128, least digit first, one digit a byte; every byte but
the last has its top bit set. `Varint.encode` writes the shortest form, `Varint.read` accepts every
form of at most ten bytes, padded ones included, and says which bytes it read.
-/

namespace QuantClassifier.Wire

/-- The bytes of a message. -/
abbrev Bytes := List UInt8

/-- Something read from the front of some bytes: the bytes it was read from and those left. -/
structure Taken (α : Type) where
  value : α
  raw : Bytes
  rest : Bytes

/-- A reading takes its bytes from the front of the input. -/
def Taken.From {α : Type} (t : Taken α) (input : Bytes) : Prop := t.raw ++ t.rest = input

theorem Taken.From.length_eq {α : Type} {t : Taken α} {input : Bytes} (h : t.From input) :
    input.length = t.raw.length + t.rest.length := by
  rw [← List.length_append, h]

namespace Varint

/-- A varint never takes more bytes than this. -/
def maxLength : Nat := 10

/-- The shortest form of a number. -/
def encode (n : Nat) : Bytes :=
  if n < 128 then [UInt8.ofNat n] else UInt8.ofNat (n % 128 + 128) :: encode (n / 128)
termination_by n
decreasing_by omega

/-- Reads at most `room` more bytes. What ends in the last byte of all may only be the top bit of a
number below `2 ^ 64`. -/
def readWithin : (room : Nat) → Bytes → Option (Taken Nat)
  | 0, _ => none
  | _ + 1, [] => none
  | room + 1, b :: rest =>
    if b.toNat < 128 then
      if room = 0 ∧ 2 ≤ b.toNat then none else some ⟨b.toNat, [b], rest⟩
    else
      match readWithin room rest with
      | none => none
      | some t => some ⟨b.toNat - 128 + 128 * t.value, b :: t.raw, t.rest⟩

/-- Reads a varint from the front. -/
def read (input : Bytes) : Option (Taken Nat) := readWithin maxLength input

theorem readWithin_from {room : Nat} {input : Bytes} {t : Taken Nat}
    (h : readWithin room input = some t) : t.From input ∧ 0 < t.raw.length := by
  fun_induction readWithin room input generalizing t with
  | case1 => cases h
  | case2 => cases h
  | case3 => cases h
  | case4 => cases h; exact ⟨rfl, Nat.one_pos⟩
  | case5 => cases h
  | case6 room b rest _ u hu ih =>
    cases h
    exact ⟨congrArg (b :: ·) (ih hu).1, Nat.succ_pos _⟩

theorem read_from {input : Bytes} {t : Taken Nat} (h : read input = some t) : t.From input :=
  (readWithin_from h).1

theorem read_raw_pos {input : Bytes} {t : Taken Nat} (h : read input = some t) :
    0 < t.raw.length :=
  (readWithin_from h).2

theorem encode_ne_nil (n : Nat) : encode n ≠ [] := by
  unfold encode
  split <;> simp

/-- A byte with its top bit set is a digit and 128. -/
theorem toNat_ofNat_digit (n : Nat) : (UInt8.ofNat (n % 128 + 128)).toNat = n % 128 + 128 := by
  rw [UInt8.toNat_ofNat']
  omega

end Varint

end QuantClassifier.Wire
