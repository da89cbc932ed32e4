import QuantClassifier.Binary.LittleEndian
import QuantClassifier.Onnx.Message
import QuantClassifier.Onnx.Schema
import QuantClassifier.Text.Utf8

/-!
# Decoding messages

A message is decoded record by record into the fields decoded so far, so that a single message that
is split over several records is merged. Records of unknown fields are skipped. The depth of nesting
is limited: `decodeInto` may enter `budget` more levels, and an unknown field needs one level as
well.
-/

namespace QuantClassifier.Onnx

open Wire

namespace Scalar

/-- How a single value is delimited. -/
def wireType : Scalar → WireType
  | int32 => .varint
  | int64 => .varint
  | uint64 => .varint
  | float => .thirtyTwoBit
  | double => .sixtyFourBit
  | string => .lengthDelimited
  | bytes => .lengthDelimited

/-- The number that a varint stands for: low bits are kept, in two's complement if signed. -/
def ofVarint : Scalar → Nat → Int
  | int32, n => Int.bmod n 0x100000000
  | int64, n => Int.bmod n 0x10000000000000000
  | _, n => n

/-- The value of a whole payload. -/
def read? (s : Scalar) (payload : Bytes) : Option Value :=
  match s with
  | float => some (.float (Binary.ofBits (LittleEndian.toNat payload)))
  | double => some (.double (Binary.ofBits (LittleEndian.toNat payload)))
  | string => if (Text.decodeUtf8? payload).isSome then some (.bytes payload) else none
  | bytes => some (.bytes payload)
  | _ => (Varint.read payload).map fun t => .int (s.ofVarint t.value)

/-- All varints of a payload. -/
def readVarints (input : Bytes) : Option (List Nat) :=
  if input.isEmpty then some []
  else
    match _ : Varint.read input with
    | none => none
    | some t => (readVarints t.rest).map (t.value :: ·)
termination_by input.length
decreasing_by
  have h : Varint.read input = some t := ‹_›
  have h₁ := (Varint.read_from h).length_eq
  have h₂ := Varint.read_raw_pos h
  omega

/-- The values of a packed payload; texts and bytes are never packed. -/
def readPacked? (s : Scalar) (payload : Bytes) : Option Value :=
  match s with
  | float => (LittleEndian.numbers? 4 payload).map fun ns => .floats (ns.map Binary.ofBits)
  | double => (LittleEndian.numbers? 8 payload).map fun ns => .doubles (ns.map Binary.ofBits)
  | string => none
  | bytes => none
  | _ => (readVarints payload).map fun ns => .ints (ns.map s.ofVarint)

/-- One value of a repeated field. -/
def readElement? (s : Scalar) (payload : Bytes) : Option Value :=
  match s.read? payload with
  | some (.int n) => some (.ints [n])
  | some (.float x) => some (.floats [x])
  | some (.double x) => some (.doubles [x])
  | v => v

/-- Texts and bytes are repeated as values of their own. -/
def isDelimited (s : Scalar) : Bool := s.wireType = .lengthDelimited

end Scalar

namespace Message

/-- Adds the values of one record to a repeated field of numbers. -/
def extend (m : Message) (number : Nat) (v : Value) : Message :=
  if v.isDefault then m
  else
    match m.get? number with
    | none => m.put number v
    | some w => m.put number (w.append v)

/-- Sets a single scalar as its label says. -/
def set (m : Message) (number : Nat) (label : Label) (v : Value) : Message :=
  match label with
  | .choice others => (others.foldl erase m).put number v
  | .singular => if v.isDefault then m.erase number else m.put number v
  | _ => m.put number v

end Message

/-- Decodes the payload of a known field into a message; `enter` decodes messages a level below. -/
def Field.decode (enter : MessageType → Message → Bytes → Option Message) (f : Field)
    (wireType : WireType) (payload : Bytes) (m : Message) : Option Message :=
  match f.type with
  | .message t =>
    if wireType = .lengthDelimited then
      match f.label with
      | .repeated => (enter t [] payload).map fun sub => m.push f.number (.message sub)
      | _ => (enter t ((m.child? f.number).getD []) payload).map fun sub =>
          m.put f.number (.message sub)
    else none
  | .scalar s =>
    match f.label with
    | .repeated =>
      if s.isDelimited then
        if wireType = .lengthDelimited then (s.read? payload).map (m.push f.number) else none
      else if wireType = s.wireType then (s.readElement? payload).map (m.extend f.number)
      else if wireType = .lengthDelimited then (s.readPacked? payload).map (m.extend f.number)
      else none
    | label =>
      if wireType = s.wireType then (s.read? payload).map (m.set f.number label) else none

/-- Skips the fields of an unknown group up to its end, which must carry the group's number. Each
field costs a level of the budget, as does each group inside. -/
def skipGroup (budget number : Nat) (input : Bytes) :
    Option { rest : Bytes // rest.length < input.length } :=
  match hk : Key.read input with
  | .error _ => none
  | .ok key =>
    have hlt : key.rest.length < input.length := by
      have h₁ := (Key.read_from hk).1.length_eq
      have h₂ := (Key.read_from hk).2
      omega
    if key.value.wireType = .endGroup then
      if key.value.number = number then some ⟨key.rest, hlt⟩ else none
    else if budget = 0 then none
    else if key.value.wireType = .startGroup then
      match skipGroup (budget - 1) key.value.number key.rest with
      | none => none
      | some ⟨inner, hi⟩ =>
        match skipGroup budget number inner with
        | none => none
        | some ⟨rest, hr⟩ => some ⟨rest, by omega⟩
    else
      match hp : Record.readPayload key.value key.rest with
      | .error _ => none
      | .ok (_, _, inner) =>
        have hi := Record.readPayload_length_le hp
        match skipGroup budget number inner with
        | none => none
        | some ⟨rest, hr⟩ => some ⟨rest, by omega⟩
termination_by input.length

/-- Decodes the records of a message one after the other. -/
def decodeRecords (enter : MessageType → Message → Bytes → Option Message) (budget : Nat)
    (t : MessageType) (m : Message) (input : Bytes) : Option Message :=
  if input.isEmpty then some m
  else
    match hk : Key.read input with
    | .error _ => none
    | .ok key =>
      have hlt : key.rest.length < input.length := by
        have h₁ := (Key.read_from hk).1.length_eq
        have h₂ := (Key.read_from hk).2
        omega
      match t.field? key.value.number with
      | some f =>
        match hp : Record.readPayload key.value key.rest with
        | .error _ => none
        | .ok (_, payload, rest) =>
          have hr := Record.readPayload_length_le hp
          match f.decode enter key.value.wireType payload m with
          | none => none
          | some m' => decodeRecords enter budget t m' rest
      | none =>
        if budget = 0 then none
        else if key.value.wireType = .startGroup then
          match skipGroup (budget - 1) key.value.number key.rest with
          | none => none
          | some ⟨rest, hr⟩ => decodeRecords enter budget t m rest
        else
          match hp : Record.readPayload key.value key.rest with
          | .error _ => none
          | .ok (_, _, rest) =>
            have hr := Record.readPayload_length_le hp
            decodeRecords enter budget t m rest
termination_by input.length

/-- Decodes a message into what is known of it, entering at most `budget` levels. -/
def decodeInto : (budget : Nat) → MessageType → Message → Bytes → Option Message
  | 0 => decodeRecords (fun _ _ _ => none) 0
  | budget + 1 => decodeRecords (decodeInto budget) (budget + 1)

/-- How many levels may be nested in a message. -/
def maxDepth : Nat := 100

/-- Decodes a message. -/
def decode? (t : MessageType) (input : Bytes) : Option Message := decodeInto maxDepth t [] input

end QuantClassifier.Onnx
