import QuantClassifier.Proofs.Wire.Reading

/-!
# The grammar of messages

What a record looks like is said here without the reader: digits in base 128, a key, and behind it
what the wire type asks for (`IsRecord`). The reader accepts exactly the concatenations of records
(`readAll_iff_grammar`). No record begins another one, since each tells from its own bytes where it
ends, so a message is a concatenation of records in one way only. The spans of the records lie end
to end over the whole message (`Tile`), which is what makes it safe to cut it at them.
-/

namespace QuantClassifier.Wire

namespace Varint

/-- The bytes are the digits of a number in base 128, least digit first. Every byte but the last has
its top bit set, and the number may be padded with zeros. -/
inductive Digits : Bytes → Nat → Prop where
  | last {b : UInt8} : b.toNat < 128 → Digits [b] b.toNat
  | more {b : UInt8} {bytes : Bytes} {n : Nat} : 128 ≤ b.toNat → Digits bytes n →
      Digits (b :: bytes) (b.toNat - 128 + 128 * n)

/-- The bytes are a varint of a number: at most ten digits, and the number has 64 bits. -/
structure Spells (bytes : Bytes) (n : Nat) : Prop where
  digits : Digits bytes n
  length_le : bytes.length ≤ 10
  lt : n < 2 ^ 64

section Varint

variable {room n : Nat} {input bytes : Bytes} {t : Taken Nat}

theorem digits_of_readWithin (h : readWithin room input = some t) :
    Digits t.raw t.value ∧ t.raw.length ≤ room := by
  fun_induction readWithin room input generalizing t with
  | case1 => cases h
  | case2 => cases h
  | case3 => cases h
  | case4 room b left hb hlast =>
    cases h
    exact ⟨.last hb, Nat.le_add_left ..⟩
  | case5 => cases h
  | case6 room b left hb u hu ih =>
    cases h
    obtain ⟨hdigits, hlen⟩ := ih hu
    exact ⟨.more (by omega) hdigits, Nat.succ_le_succ hlen⟩

/-- With room for one digit more than seven bits each, one bit is left for the last digit. -/
theorem readWithin_of_digits (h : Digits bytes n) (hlen : bytes.length ≤ room + 1)
    (hlt : n < 2 ^ (7 * room + 1)) (rest : Bytes) :
    readWithin (room + 1) (bytes ++ rest) = some ⟨n, bytes, rest⟩ := by
  induction h generalizing room with
  | @last b hb =>
    have hroom : ¬ (room = 0 ∧ 2 ≤ b.toNat) := by
      rintro ⟨rfl, h2⟩
      have : b.toNat < 2 := hlt
      omega
    rw [List.singleton_append, readWithin, if_pos hb, if_neg hroom]
  | @more b bytes n hb hdigits ih =>
    rw [List.length_cons] at hlen
    cases room with
    | zero =>
      have hnil : bytes = [] := List.length_eq_zero_iff.1 (by omega)
      subst hnil
      cases hdigits
    | succ room =>
      have hpow : 2 ^ (7 * (room + 1) + 1) = 128 * 2 ^ (7 * room + 1) :=
        two_pow_add_seven (7 * room + 1)
      rw [List.cons_append, readWithin, if_neg (by omega), ih (by omega) (by omega)]

/-- A varint is read from the front of some bytes exactly if they begin with one. -/
theorem read_eq_some_iff : read input = some t ↔ Spells t.raw t.value ∧ t.raw ++ t.rest = input := by
  constructor
  · intro h
    obtain ⟨hdigits, hlen⟩ := digits_of_readWithin h
    exact ⟨⟨hdigits, hlen, read_value_lt h⟩, read_from h⟩
  · rintro ⟨h, rfl⟩
    exact readWithin_of_digits h.digits h.length_le h.lt t.rest

theorem Spells.read_append (h : Spells bytes n) (rest : Bytes) :
    read (bytes ++ rest) = some ⟨n, bytes, rest⟩ :=
  read_eq_some_iff.2 ⟨h, rfl⟩

end Varint

end Varint

namespace Record

/-- What may stand behind a key of a wire type: the bytes of a length, which only a delimited
payload has, and the payload. Nothing may stand behind the key of a group. -/
inductive IsPayload : WireType → (length payload : Bytes) → Prop where
  | varint {payload : Bytes} {n : Nat} : Varint.Spells payload n → IsPayload .varint [] payload
  | sixtyFourBit {payload : Bytes} : payload.length = 8 → IsPayload .sixtyFourBit [] payload
  | thirtyTwoBit {payload : Bytes} : payload.length = 4 → IsPayload .thirtyTwoBit [] payload
  | lengthDelimited {length payload : Bytes} : Varint.Spells length payload.length →
      IsPayload .lengthDelimited length payload

/-- A record of the format: a key of 32 bits with a field number and a wire type, and what the wire
type asks for. -/
structure IsRecord (r : Record) : Prop where
  number_pos : 0 < r.number
  code_lt : r.number * 8 + r.wireType.code < 2 ^ 32
  parts : ∃ key length, r.head = key ++ length ∧
    Varint.Spells key (r.number * 8 + r.wireType.code) ∧ IsPayload r.wireType length r.payload

/-- The message is the concatenation of some records. -/
structure SplitsInto (msg : Bytes) (rs : List Record) : Prop where
  records : ∀ r ∈ rs, IsRecord r
  bytes : writeAll rs = msg

/-- The spans of some records lie end to end from an offset to the end of a message. Each has the
bytes of its record, at least one of them in front of the payload, and the payload's at its end. -/
inductive Tile (msg : Bytes) : (offset : Nat) → List Record → List Span → Prop where
  | nil : Tile msg msg.length [] []
  | cons {r : Record} {rs : List Record} {start payload stop : Nat} {spans : List Span} :
      start < payload → payload ≤ stop → stop ≤ msg.length →
      msg.extract start stop = r.bytes → msg.extract payload stop = r.payload →
      Tile msg stop rs spans → Tile msg start (r :: rs) (⟨start, payload, stop⟩ :: spans)

section Grammar

variable {key : Key} {r : Record} {rs rs' : List Record} {wireType : WireType}
  {input length payload rest msg : Bytes} {number : Nat} {e : Error}

theorem isPayload_of_readPayload (h : readPayload key input = .ok (length, payload, rest)) :
    IsPayload key.wireType length payload := by
  unfold readPayload at h
  split at h <;>
    simp only [bind_eq_ok_iff, pure_eq_ok_iff, readVarint_eq_ok_iff, take_eq_ok_iff, Prod.mk.injEq,
      reduceCtorEq] at h
  · next hw =>
    obtain ⟨t, ht, rfl, rfl, rfl⟩ := h
    rw [hw]
    exact .varint (Varint.read_eq_some_iff.1 ht).1
  · next hw =>
    obtain ⟨t, ⟨hlen, rfl⟩, rfl, rfl, rfl⟩ := h
    rw [hw]
    exact .sixtyFourBit (List.length_take_of_le hlen)
  · next hw =>
    obtain ⟨t, ⟨hlen, rfl⟩, rfl, rfl, rfl⟩ := h
    rw [hw]
    exact .thirtyTwoBit (List.length_take_of_le hlen)
  · next hw =>
    obtain ⟨t, ht, u, ⟨hlen, rfl⟩, rfl, rfl, rfl⟩ := h
    rw [hw]
    refine .lengthDelimited ?_
    rw [List.length_take_of_le hlen]
    exact (Varint.read_eq_some_iff.1 ht).1

theorem IsPayload.readPayload (h : IsPayload wireType length payload) (number : Nat)
    (rest : Bytes) :
    readPayload ⟨number, wireType⟩ (length ++ (payload ++ rest)) = .ok (length, payload, rest) := by
  cases h with
  | varint hn =>
    simp only [Record.readPayload, List.nil_append, readVarint_eq_ok_iff.2 (hn.read_append rest),
      bind, Except.bind, pure, Except.pure]
  | sixtyFourBit hlen =>
    simp only [Record.readPayload, List.nil_append, take_append_of_length hlen, bind, Except.bind,
      pure, Except.pure]
  | thirtyTwoBit hlen =>
    simp only [Record.readPayload, List.nil_append, take_append_of_length hlen, bind, Except.bind,
      pure, Except.pure]
  | lengthDelimited hlen =>
    simp only [Record.readPayload, readVarint_eq_ok_iff.2 (hlen.read_append (payload ++ rest)),
      bind, Except.bind, take_append_of_length rfl, pure, Except.pure]

/-- The records of the format are those that are read from their own bytes, whatever follows. -/
theorem isRecord_iff_readable : IsRecord r ↔ r.Readable := by
  constructor
  · rintro ⟨hpos, hlt, key, length, hhead, hkey, hpayload⟩ rest
    have hnumber : IsFieldNumber r.number := ⟨hpos, by omega⟩
    have hread : Key.read (key ++ (length ++ (r.payload ++ rest))) =
        .ok ⟨⟨r.number, r.wireType⟩, key, length ++ (r.payload ++ rest)⟩ :=
      Key.read_of_varint hnumber (hkey.read_append _)
    rw [bytes, hhead, List.append_assoc, List.append_assoc, read, hread]
    simp only [bind, Except.bind, hpayload.readPayload, pure, Except.pure, ← hhead]
  · intro h
    have hread := h []
    simp only [read, bind_eq_ok_iff, pure_eq_ok_iff, Prod.mk.injEq] at hread
    obtain ⟨key, hkey, ⟨length, payload, left⟩, hp, rfl, -⟩ := hread
    obtain ⟨hvarint, hpos, hlt⟩ := Key.read_eq_ok hkey
    have hcode := key.value.wireType.code_lt
    refine ⟨hpos, by simp only; omega, key.raw, length, rfl, ?_, isPayload_of_readPayload hp⟩
    exact (Varint.read_eq_some_iff.1 hvarint).1

theorem IsRecord.head_pos (h : IsRecord r) : 0 < r.head.length :=
  (read_append (isRecord_iff_readable.1 h [])).2

theorem splitsInto_iff : SplitsInto msg rs ↔ readAll msg = .ok rs := by
  rw [readAll_eq_ok_iff]
  constructor
  · rintro ⟨hrecords, hbytes⟩
    exact ⟨hbytes, fun r hr => isRecord_iff_readable.1 (hrecords r hr)⟩
  · rintro ⟨hbytes, hread⟩
    exact ⟨fun r hr => isRecord_iff_readable.2 (hread r hr), hbytes⟩

/-- A message is refused where a record should begin and none does. -/
theorem stop_of_readAll_eq_error (h : readAll msg = .error e) :
    ∃ rs rest, (∀ r ∈ rs, IsRecord r) ∧ writeAll rs ++ rest = msg ∧ rest ≠ [] ∧
      ∀ r after, IsRecord r → r.bytes ++ after ≠ rest := by
  fun_induction readAll msg with
  | case1 => cases h
  | case2 input hempty e' hread =>
    refine ⟨[], input, by simp, rfl, by simpa using hempty, ?_⟩
    rintro r after hr rfl
    rw [isRecord_iff_readable.1 hr] at hread
    cases hread
  | case3 input _ r rest hread ih =>
    have herror : readAll rest = .error e := by
      cases hrest : readAll rest with
      | error e' =>
        rw [hrest] at h
        cases h
        rfl
      | ok rs =>
        rw [hrest] at h
        cases h
    obtain ⟨rs, last, hrs, hbytes, hne, hnone⟩ := ih herror
    have hr := isRecord_iff_readable.2 (readable_of_read hread)
    refine ⟨r :: rs, last, List.forall_mem_cons.2 ⟨hr, hrs⟩, ?_, hne, hnone⟩
    rw [writeAll_cons, List.append_assoc, hbytes, (read_append hread).1]

theorem extract_append_append (front mid rest : Bytes) :
    (front ++ (mid ++ rest)).extract front.length (front.length + mid.length) = mid := by
  rw [List.extract_eq_take_drop, List.drop_left, Nat.add_sub_cancel_left, List.take_left]

/-- Spans are counted from where the bytes in front of the records end. -/
theorem tile_spans (front : Bytes) (h : ∀ r ∈ rs, IsRecord r) :
    Tile (front ++ writeAll rs) front.length rs (spans front.length rs) := by
  induction rs generalizing front with
  | nil =>
    rw [writeAll_nil, List.append_nil]
    exact .nil
  | cons r rs ih =>
    have hpos := (h r (List.mem_cons_self ..)).head_pos
    have hnext := ih (front ++ r.bytes) fun r' hr' => h r' (List.mem_cons_of_mem _ hr')
    have hmsg : front ++ r.bytes ++ writeAll rs = front ++ writeAll (r :: rs) := by
      rw [writeAll_cons, List.append_assoc]
    have hstop : (front ++ r.bytes).length = front.length + r.head.length + r.payload.length := by
      rw [bytes, List.length_append, List.length_append, Nat.add_assoc]
    have hrecord := extract_append_append front r.bytes (writeAll rs)
    have hpayload := extract_append_append (front ++ r.head) r.payload (writeAll rs)
    have hwithin : (front ++ r.bytes).length ≤ (front ++ writeAll (r :: rs)).length := by
      rw [← hmsg]
      exact (List.prefix_append ..).length_le
    rw [← List.append_assoc, hmsg, ← List.length_append, hstop] at hrecord
    rw [List.append_assoc, ← List.append_assoc r.head, ← bytes, ← List.append_assoc, hmsg,
      List.length_append] at hpayload
    rw [hmsg, hstop] at hnext
    rw [hstop] at hwithin
    exact .cons (Nat.lt_add_of_pos_right hpos) (Nat.le_add_right ..) hwithin hrecord hpayload hnext

end Grammar

/-- The reader accepts exactly the messages that are concatenations of records, and each of them in
one way. What it gives for a message are these records in their order, with spans that lie end to
end over the message. A message that it refuses has records in front of a place where no record
begins, however long a payload is announced there. -/
theorem readAll_iff_grammar (msg : Bytes) :
    ((∃ rs, readAll msg = .ok rs) ↔ ∃ rs, SplitsInto msg rs) ∧
    (∀ rs rs', SplitsInto msg rs → SplitsInto msg rs' → rs = rs') ∧
    (∀ rs, readAll msg = .ok rs → SplitsInto msg rs ∧ Tile msg 0 rs (spans 0 rs)) ∧
    (∀ e, readAll msg = .error e → ∃ rs rest, (∀ r ∈ rs, IsRecord r) ∧ writeAll rs ++ rest = msg ∧
      rest ≠ [] ∧ ∀ r after, IsRecord r → r.bytes ++ after ≠ rest) := by
  refine ⟨by simp only [splitsInto_iff], ?_, ?_, ?_⟩
  · intro rs rs' h h'
    exact Except.ok.inj ((splitsInto_iff.1 h).symm.trans (splitsInto_iff.1 h'))
  · intro rs h
    have hsplit := splitsInto_iff.2 h
    have htile := tile_spans [] hsplit.records
    rw [List.nil_append, hsplit.bytes] at htile
    exact ⟨hsplit, htile⟩
  · intro e h
    exact stop_of_readAll_eq_error h

/-- A message with a record of each kind; the key and the length of the second one are padded. -/
def mixedMessage : Bytes :=
  [0x08, 0x96, 0x01, 0x92, 0x00, 0x83, 0x00, 0x61, 0x62, 0x63, 0x1D, 0x00, 0x00, 0x80, 0x3F,
    0x21, 0x01, 0x02, 0x03, 0x04, 0x05, 0x06, 0x07, 0x08]

/-- A message that announces the longest payload of all behind its first record. -/
def overlongMessage : Bytes :=
  [0x08, 0x01, 0x12, 0xFF, 0xFF, 0xFF, 0xFF, 0xFF, 0xFF, 0xFF, 0xFF, 0xFF, 0x01, 0x61]

theorem readAll_iff_grammar_mixedMessage :
    (∃ rs, readAll mixedMessage = .ok rs ∧ SplitsInto mixedMessage rs ∧
      Tile mixedMessage 0 rs [⟨0, 1, 3⟩, ⟨3, 7, 10⟩, ⟨10, 11, 15⟩, ⟨15, 16, 24⟩]) ∧
    ∃ e rs rest, readAll overlongMessage = .error e ∧ (∀ r ∈ rs, IsRecord r) ∧
      writeAll rs ++ rest = overlongMessage ∧ rest ≠ [] ∧
      ∀ r after, IsRecord r → r.bytes ++ after ≠ rest := by
  constructor
  · have hspans : (readAll mixedMessage).toOption.map (spans 0) =
        some [⟨0, 1, 3⟩, ⟨3, 7, 10⟩, ⟨10, 11, 15⟩, ⟨15, 16, 24⟩] := by decide +kernel
    obtain ⟨rs, hrs, hspans⟩ := Option.map_eq_some_iff.1 hspans
    have hall := toOption_eq_some_iff.1 hrs
    obtain ⟨hsplit, htile⟩ := (readAll_iff_grammar mixedMessage).2.2.1 rs hall
    rw [hspans] at htile
    exact ⟨rs, hall, hsplit, htile⟩
  · have hnone : (readAll overlongMessage).toOption = none := by decide +kernel
    cases he : readAll overlongMessage with
    | ok rs =>
      rw [he] at hnone
      cases hnone
    | error e =>
      obtain ⟨rs, rest, hstop⟩ := (readAll_iff_grammar overlongMessage).2.2.2 e he
      exact ⟨e, rs, rest, rfl, hstop⟩

end Record

end QuantClassifier.Wire
