import QuantClassifier.Outcome
import QuantClassifier.Wire.Varint

/-!
# Records of an encoded message

An encoded message is a concatenation of records: a key that holds a field number and a wire type,
and a payload whose extent the wire type decides. `Record.readAll` splits a message into its records
and keeps every byte of it, so that writing the records back gives the message
(`writeAll_of_readAll`). Groups, whose extent only their nested fields tell, are refused.
-/

namespace QuantClassifier.Wire

/-- How the payload of a record is delimited. -/
inductive WireType where
  | varint
  | sixtyFourBit
  | lengthDelimited
  | startGroup
  | endGroup
  | thirtyTwoBit
  deriving DecidableEq, Repr

namespace WireType

/-- The wire type's number in a key. -/
def code : WireType → Nat
  | varint => 0
  | sixtyFourBit => 1
  | lengthDelimited => 2
  | startGroup => 3
  | endGroup => 4
  | thirtyTwoBit => 5

/-- The wire type of a number, of which there are six. -/
def ofCode? : Nat → Option WireType
  | 0 => some varint
  | 1 => some sixtyFourBit
  | 2 => some lengthDelimited
  | 3 => some startGroup
  | 4 => some endGroup
  | 5 => some thirtyTwoBit
  | _ => none

theorem ofCode?_code (t : WireType) : ofCode? t.code = some t := by
  cases t <;> rfl

end WireType

/-- What makes bytes no message. -/
inductive Error where
  | invalidVarint
  | keyTooLarge (key : Nat)
  | invalidWireType (code : Nat)
  | numberZero
  | truncated (expected left : Nat)
  | group (number : Nat)
  deriving DecidableEq, Repr

/-- The wording of an error. -/
def Error.message : Error → String
  | invalidVarint => "failed to decode Protobuf message: invalid varint"
  | keyTooLarge key => s!"failed to decode Protobuf message: invalid key value: {key}"
  | invalidWireType code => s!"failed to decode Protobuf message: invalid wire type value: {code}"
  | numberZero => "failed to decode Protobuf message: invalid tag value: 0"
  | truncated expected left => s!"Truncated field: {expected} bytes expected, {left} left"
  | group number => s!"Unsupported group encoding in field {number}"

/-- Reads a varint from the front, or fails. -/
def readVarint (input : Bytes) : Except Error (Taken Nat) :=
  match Varint.read input with
  | none => .error .invalidVarint
  | some t => .ok t

/-- Takes the next `len` bytes. -/
def take (len : Nat) (input : Bytes) : Except Error (Taken Bytes) :=
  if input.length < len then .error (.truncated len input.length)
  else .ok ⟨input.take len, input.take len, input.drop len⟩

theorem readVarint_eq_ok_iff {input : Bytes} {t : Taken Nat} :
    readVarint input = .ok t ↔ Varint.read input = some t := by
  unfold readVarint
  split <;> simp_all

theorem take_eq_ok_iff {len : Nat} {input : Bytes} {t : Taken Bytes} :
    take len input = .ok t ↔
      len ≤ input.length ∧ ⟨input.take len, input.take len, input.drop len⟩ = t := by
  unfold take
  split
  · simp only [reduceCtorEq, false_iff]
    omega
  · simp only [Except.ok.injEq, iff_and_self]
    omega

/-- A field number and a wire type. -/
structure Key where
  number : Nat
  wireType : WireType
  deriving DecidableEq, Repr

namespace Key

/-- The key as a number: three low bits of wire type below the field number. -/
def code (k : Key) : Nat := k.number * 8 + k.wireType.code

/-- The shortest form of a key. -/
def encode (k : Key) : Bytes := Varint.encode k.code

/-- The key of a number; the first fault in the order of the checks is the error. -/
def ofCode (code : Nat) : Except Error Key :=
  if 0x100000000 ≤ code then .error (.keyTooLarge code)
  else
    match WireType.ofCode? (code % 8) with
    | none => .error (.invalidWireType (code % 8))
    | some t => if code / 8 = 0 then .error .numberZero else .ok ⟨code / 8, t⟩

/-- Reads a key from the front. -/
def read (input : Bytes) : Except Error (Taken Key) := do
  let t ← readVarint input
  let k ← ofCode t.value
  return ⟨k, t.raw, t.rest⟩

theorem read_from {input : Bytes} {t : Taken Key} (h : read input = .ok t) :
    t.From input ∧ 0 < t.raw.length := by
  simp only [read, bind_eq_ok_iff, pure_eq_ok_iff, readVarint_eq_ok_iff] at h
  obtain ⟨u, hu, k, -, rfl⟩ := h
  exact ⟨Varint.read_from hu, Varint.read_raw_pos hu⟩

end Key

/-- A top level field of a message: its key, its payload, and the bytes of both as they were. The
head holds the key and, before a delimited payload, the length. -/
structure Record where
  number : Nat
  wireType : WireType
  head : Bytes
  payload : Bytes
  deriving DecidableEq

namespace Record

/-- The bytes of a record. -/
def bytes (r : Record) : Bytes := r.head ++ r.payload

/-- A delimited record with the shortest key and length. -/
def delimited (number : Nat) (payload : Bytes) : Record where
  number := number
  wireType := .lengthDelimited
  head := Key.encode ⟨number, .lengthDelimited⟩ ++ Varint.encode payload.length
  payload := payload

/-- A record of another wire type with the shortest key. -/
def plain (number : Nat) (wireType : WireType) (payload : Bytes) : Record where
  number := number
  wireType := wireType
  head := Key.encode ⟨number, wireType⟩
  payload := payload

/-- Reads the payload that a key announces: the bytes of its length, if it is delimited, the payload
itself, and what is left. -/
def readPayload (key : Key) (input : Bytes) : Except Error (Bytes × Bytes × Bytes) :=
  match key.wireType with
  | .varint => do
    let t ← readVarint input
    return ([], t.raw, t.rest)
  | .sixtyFourBit => do
    let t ← take 8 input
    return ([], t.value, t.rest)
  | .thirtyTwoBit => do
    let t ← take 4 input
    return ([], t.value, t.rest)
  | .lengthDelimited => do
    let length ← readVarint input
    let t ← take length.value length.rest
    return (length.raw, t.value, t.rest)
  | .startGroup => .error (.group key.number)
  | .endGroup => .error (.group key.number)

/-- Reads a record from the front. -/
def read (input : Bytes) : Except Error (Record × Bytes) := do
  let key ← Key.read input
  let (length, payload, rest) ← readPayload key.value key.rest
  return (⟨key.value.number, key.value.wireType, key.raw ++ length, payload⟩, rest)

theorem readPayload_append {key : Key} {input length payload rest : Bytes}
    (h : readPayload key input = .ok (length, payload, rest)) :
    length ++ payload ++ rest = input := by
  unfold readPayload at h
  split at h <;>
    simp only [bind_eq_ok_iff, pure_eq_ok_iff, readVarint_eq_ok_iff, take_eq_ok_iff, Prod.mk.injEq,
      reduceCtorEq] at h
  · obtain ⟨t, ht, rfl, rfl, rfl⟩ := h
    exact Varint.read_from ht
  · obtain ⟨t, ⟨-, rfl⟩, rfl, rfl, rfl⟩ := h
    exact List.take_append_drop ..
  · obtain ⟨t, ⟨-, rfl⟩, rfl, rfl, rfl⟩ := h
    exact List.take_append_drop ..
  · obtain ⟨t, ht, u, ⟨-, rfl⟩, rfl, rfl, rfl⟩ := h
    rw [List.append_assoc, List.take_append_drop]
    exact Varint.read_from ht

/-- A record is read from the front, and takes at least one byte. -/
theorem read_append {input rest : Bytes} {r : Record} (h : read input = .ok (r, rest)) :
    r.bytes ++ rest = input ∧ 0 < r.head.length := by
  simp only [read, bind_eq_ok_iff, pure_eq_ok_iff, Prod.mk.injEq] at h
  obtain ⟨key, hk, ⟨length, payload, left⟩, hp, rfl, rfl⟩ := h
  obtain ⟨hfrom, hpos⟩ := Key.read_from hk
  refine ⟨?_, by simp only [List.length_append]; omega⟩
  have := readPayload_append hp
  simp only [bytes, List.append_assoc] at this ⊢
  rw [this]
  exact hfrom

theorem read_length_lt {input rest : Bytes} {r : Record} (h : read input = .ok (r, rest)) :
    rest.length < input.length := by
  obtain ⟨rfl, hpos⟩ := read_append h
  simp only [bytes, List.length_append]
  omega

/-- A payload never leaves more than there was. -/
theorem readPayload_length_le {key : Key} {input length payload rest : Bytes}
    (h : readPayload key input = .ok (length, payload, rest)) : rest.length ≤ input.length := by
  rw [← readPayload_append h]
  simp only [List.length_append]
  omega

/-- Splits a message into its records. -/
def readAll (input : Bytes) : Except Error (List Record) :=
  if input.isEmpty then .ok []
  else
    match _ : read input with
    | .error e => .error e
    | .ok (r, rest) => return r :: (← readAll rest)
termination_by input.length
decreasing_by exact read_length_lt ‹_›

/-- The message that some records make up. -/
def writeAll (records : List Record) : Bytes := records.flatMap bytes

/-- No byte of a message is lost in its records. -/
theorem writeAll_of_readAll {input : Bytes} {records : List Record}
    (h : readAll input = .ok records) : writeAll records = input := by
  fun_induction readAll input generalizing records with
  | case1 input hempty =>
    cases h
    simp_all [writeAll]
  | case2 => cases h
  | case3 input _ r rest hr ih =>
    simp only [bind_eq_ok_iff, pure_eq_ok_iff] at h
    obtain ⟨rs, hrs, rfl⟩ := h
    rw [← (read_append hr).1, ← ih hrs]
    rfl

/-- Where a record lies in its message: from `start`, with its payload from `payload`, to `stop`. -/
structure Span where
  start : Nat
  payload : Nat
  stop : Nat
  deriving DecidableEq, Repr

/-- The spans of records that follow each other from an offset. -/
def spans (offset : Nat) : List Record → List Span
  | [] => []
  | r :: rs =>
    let payload := offset + r.head.length
    let stop := payload + r.payload.length
    ⟨offset, payload, stop⟩ :: spans stop rs

end Record

end QuantClassifier.Wire
