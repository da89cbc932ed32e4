import Mathlib.Algebra.Group.Int.Defs
import Mathlib.Algebra.Group.Nat.Defs
import QuantClassifier.Wire.Record

/-!
# Records are read back

Reading a varint, a key or a record depends on the bytes it takes and on nothing behind them. A
record is `Readable` if its bytes give it back in front of any others. The records of a message are
readable, and messages are exactly the concatenations of readable records (`readAll_eq_ok_iff`). A
record with the shortest key and length is readable if its number is a field number and its length
a varint, and otherwise nothing is read from it.
-/

namespace QuantClassifier.Wire

namespace Varint

theorem readWithin_append {room : Nat} {input : Bytes} {t : Taken Nat}
    (h : readWithin room input = some t) (rest : Bytes) :
    readWithin room (t.raw ++ rest) = some ⟨t.value, t.raw, rest⟩ := by
  fun_induction readWithin room input generalizing t with
  | case1 => cases h
  | case2 => cases h
  | case3 => cases h
  | case4 room b left hb hlast =>
    cases h
    rw [List.singleton_append, readWithin, if_pos hb, if_neg hlast]
  | case5 => cases h
  | case6 room b left hb u hu ih =>
    cases h
    rw [List.cons_append, readWithin, if_neg hb, ih hu]

/-- What is read does not depend on the bytes behind it. -/
theorem read_raw_append {input : Bytes} {t : Taken Nat} (h : read input = some t) (rest : Bytes) :
    read (t.raw ++ rest) = some ⟨t.value, t.raw, rest⟩ :=
  readWithin_append h rest

/-- One more digit multiplies what can be written by 128. -/
theorem two_pow_add_seven (n : Nat) : 2 ^ (n + 7) = 128 * 2 ^ n := by
  rw [Nat.pow_add, Nat.mul_comm]

theorem readWithin_value_lt {room : Nat} {input : Bytes} {t : Taken Nat}
    (h : readWithin (room + 1) input = some t) : t.value < 2 ^ (7 * room + 1) := by
  induction room generalizing input t with
  | zero =>
    cases input with
    | nil => cases h
    | cons b left =>
      unfold readWithin at h
      split at h
      · split at h
        · cases h
        · cases h
          simp only
          omega
      · rw [readWithin] at h
        cases h
  | succ room ih =>
    cases input with
    | nil => cases h
    | cons b left =>
      have hpow : 2 ^ (7 * (room + 1) + 1) = 128 * 2 ^ (7 * room + 1) :=
        two_pow_add_seven (7 * room + 1)
      have hpos : 0 < 2 ^ (7 * room + 1) := Nat.two_pow_pos _
      have hb := b.toNat_lt
      unfold readWithin at h
      split at h
      · split at h
        · cases h
        · cases h
          simp only
          omega
      · split at h
        · cases h
        · next u hu =>
          cases h
          have := ih hu
          simp only
          omega

/-- Every varint is a number of 64 bits. -/
theorem read_value_lt {input : Bytes} {t : Taken Nat} (h : read input = some t) :
    t.value < 2 ^ 64 :=
  show t.value < 2 ^ (7 * 9 + 1) from readWithin_value_lt h

theorem readWithin_encode (room n : Nat) (rest : Bytes) (h : n < 2 ^ (7 * room + 1)) :
    readWithin (room + 1) (encode n ++ rest) = some ⟨n, encode n, rest⟩ := by
  induction room generalizing n with
  | zero =>
    have h2 : n < 2 := h
    have hb : (UInt8.ofNat n).toNat = n := by rw [UInt8.toNat_ofNat']; omega
    rw [encode, if_pos (by omega), List.singleton_append, readWithin, hb, if_pos (by omega),
      if_neg (by omega)]
  | succ room ih =>
    rw [encode]
    split
    · have hb : (UInt8.ofNat n).toNat = n := by rw [UInt8.toNat_ofNat']; omega
      rw [List.singleton_append, readWithin, hb, if_pos (by assumption), if_neg (by omega)]
    · have hpow : 2 ^ (7 * (room + 1) + 1) = 128 * 2 ^ (7 * room + 1) :=
        two_pow_add_seven (7 * room + 1)
      have hq : n / 128 < 2 ^ (7 * room + 1) := by omega
      rw [List.cons_append, readWithin, toNat_ofNat_digit, if_neg (by omega), ih _ hq]
      simp only [Option.some.injEq, Taken.mk.injEq, and_true]
      omega

/-- Reading gives back what was written, with any bytes after it. -/
theorem read_encode {n : Nat} (h : n < 2 ^ 64) (rest : Bytes) :
    read (encode n ++ rest) = some ⟨n, encode n, rest⟩ :=
  readWithin_encode 9 n rest h

theorem readWithin_encode_eq_none (room n : Nat) (rest : Bytes) (h : 2 ^ (7 * room + 1) ≤ n) :
    readWithin (room + 1) (encode n ++ rest) = none := by
  induction room generalizing n with
  | zero =>
    have h2 : 2 ≤ n := h
    rw [encode]
    split
    · have hb : (UInt8.ofNat n).toNat = n := by rw [UInt8.toNat_ofNat']; omega
      rw [List.singleton_append, readWithin, hb, if_pos (by omega), if_pos (by omega)]
    · rw [List.cons_append, readWithin, toNat_ofNat_digit, if_neg (by omega), readWithin]
  | succ room ih =>
    have hpow : 2 ^ (7 * (room + 1) + 1) = 128 * 2 ^ (7 * room + 1) :=
      two_pow_add_seven (7 * room + 1)
    have hpos : 0 < 2 ^ (7 * room + 1) := Nat.two_pow_pos _
    rw [encode, if_neg (by omega), List.cons_append, readWithin, toNat_ofNat_digit,
      if_neg (by omega), ih (n / 128) (by omega)]

/-- A number of more than 64 bits is written, but not read back. -/
theorem read_encode_eq_none {n : Nat} (h : 2 ^ 64 ≤ n) (rest : Bytes) :
    read (encode n ++ rest) = none :=
  readWithin_encode_eq_none 9 n rest h

theorem length_encode_le (k n : Nat) (h : n < 2 ^ (7 * (k + 1))) : (encode n).length ≤ k + 1 := by
  induction k generalizing n with
  | zero =>
    have h128 : n < 128 := h
    rw [encode, if_pos h128]
    exact Nat.le_refl 1
  | succ k ih =>
    rw [encode]
    split
    · exact Nat.le_add_left ..
    · have hpow : 2 ^ (7 * (k + 1 + 1)) = 128 * 2 ^ (7 * (k + 1)) :=
        two_pow_add_seven (7 * (k + 1))
      have := ih (n / 128) (by omega)
      rw [List.length_cons]
      omega

/-- The shortest form of a number of 64 bits has at most ten bytes. -/
theorem length_encode_le_maxLength {n : Nat} (h : n < 2 ^ 64) : (encode n).length ≤ maxLength :=
  length_encode_le 9 n (Nat.lt_of_lt_of_le h (by decide))

end Varint

/-- A number that a key can hold. -/
def IsFieldNumber (number : Nat) : Prop := 0 < number ∧ number < 2 ^ 29

instance (number : Nat) : Decidable (IsFieldNumber number) := inferInstanceAs (Decidable (_ ∧ _))

theorem WireType.code_lt (t : WireType) : t.code < 8 := by
  cases t <;> decide

theorem WireType.code_of_ofCode? {code : Nat} {t : WireType} (h : WireType.ofCode? code = some t) :
    t.code = code := by
  unfold WireType.ofCode? at h
  split at h <;> cases h <;> rfl

namespace Key

theorem ofCode_eq_ok {code : Nat} {k : Key} (h : ofCode code = .ok k) :
    k.code = code ∧ IsFieldNumber k.number := by
  unfold ofCode at h
  split at h
  · cases h
  · split at h
    · cases h
    · next t ht =>
      split at h
      · cases h
      · cases h
        have := WireType.code_of_ofCode? ht
        simp only [Key.code, IsFieldNumber]
        omega

theorem ofCode_code {k : Key} (h : IsFieldNumber k.number) : ofCode k.code = .ok k := by
  have ht := k.wireType.code_lt
  unfold IsFieldNumber at h
  have hmod : k.code % 8 = k.wireType.code := by unfold code; omega
  have hdiv : k.code / 8 = k.number := by unfold code; omega
  rw [ofCode, if_neg (by unfold code; omega), hmod, WireType.ofCode?_code, hdiv]
  simp only
  rw [if_neg (by omega)]

theorem code_injective {k k' : Key} (h : k.code = k'.code) : k = k' := by
  have ht := k.wireType.code_lt
  have ht' := k'.wireType.code_lt
  obtain ⟨n, t⟩ := k
  obtain ⟨n', t'⟩ := k'
  simp only [code] at h ht ht'
  have hc : t.code = t'.code := by omega
  have hn : n = n' := by omega
  have := congrArg WireType.ofCode? hc
  rw [WireType.ofCode?_code, WireType.ofCode?_code] at this
  rw [hn, Option.some.inj this]

theorem read_eq_ok {input : Bytes} {t : Taken Key} (h : read input = .ok t) :
    Varint.read input = some ⟨t.value.code, t.raw, t.rest⟩ ∧ IsFieldNumber t.value.number := by
  simp only [read, bind_eq_ok_iff, pure_eq_ok_iff, readVarint_eq_ok_iff] at h
  obtain ⟨u, hu, k, hk, rfl⟩ := h
  obtain ⟨hcode, hnumber⟩ := ofCode_eq_ok hk
  rw [hcode]
  exact ⟨hu, hnumber⟩

theorem read_of_varint {k : Key} {input raw rest : Bytes} (hk : IsFieldNumber k.number)
    (h : Varint.read input = some ⟨k.code, raw, rest⟩) : read input = .ok ⟨k, raw, rest⟩ := by
  rw [read, readVarint_eq_ok_iff.2 h]
  simp only [bind, Except.bind, ofCode_code hk, pure, Except.pure]

/-- A key is read from its own bytes alone. -/
theorem read_raw_append {input : Bytes} {t : Taken Key} (h : read input = .ok t) (rest : Bytes) :
    read (t.raw ++ rest) = .ok ⟨t.value, t.raw, rest⟩ := by
  obtain ⟨hv, hk⟩ := read_eq_ok h
  exact read_of_varint hk (Varint.read_raw_append hv rest)

/-- The shortest form of a key is read back. -/
theorem read_encode {k : Key} (hk : IsFieldNumber k.number) (rest : Bytes) :
    read (k.encode ++ rest) = .ok ⟨k, k.encode, rest⟩ := by
  have ht := k.wireType.code_lt
  unfold IsFieldNumber at hk
  exact read_of_varint hk (Varint.read_encode (by unfold code; omega) rest)

/-- The shortest form of a key is read back or not at all. -/
theorem eq_of_read_encode {k : Key} {rest : Bytes} {t : Taken Key}
    (h : read (k.encode ++ rest) = .ok t) : t = ⟨k, k.encode, rest⟩ := by
  obtain ⟨hv, -⟩ := read_eq_ok h
  by_cases hlt : k.code < 2 ^ 64
  · rw [encode, Varint.read_encode hlt] at hv
    simp only [Option.some.injEq, Taken.mk.injEq] at hv
    obtain ⟨hcode, hraw, hrest⟩ := hv
    obtain ⟨value, raw, left⟩ := t
    cases code_injective hcode
    simp only at hraw hrest
    rw [← hraw, ← hrest]
    rfl
  · rw [encode, Varint.read_encode_eq_none (by omega)] at hv
    cases hv

theorem length_encode_le {k : Key} (hk : IsFieldNumber k.number) :
    k.encode.length ≤ Varint.maxLength := by
  have ht := k.wireType.code_lt
  unfold IsFieldNumber at hk
  exact Varint.length_encode_le_maxLength (by unfold code; omega)

end Key

theorem take_append_of_length {len : Nat} {payload : Bytes} (h : payload.length = len)
    (rest : Bytes) : take len (payload ++ rest) = .ok ⟨payload, payload, rest⟩ := by
  subst h
  rw [take, if_neg (by simp), List.take_left, List.drop_left]

namespace Record

/-- The record is read from its own bytes, whatever follows them. -/
def Readable (r : Record) : Prop := ∀ rest, read (r.bytes ++ rest) = .ok (r, rest)

theorem readPayload_raw_append {key : Key} {input length payload left : Bytes}
    (h : readPayload key input = .ok (length, payload, left)) (rest : Bytes) :
    readPayload key (length ++ payload ++ rest) = .ok (length, payload, rest) := by
  unfold readPayload at h ⊢
  split at h <;>
    simp only [bind_eq_ok_iff, pure_eq_ok_iff, readVarint_eq_ok_iff, take_eq_ok_iff, Prod.mk.injEq,
      reduceCtorEq] at h
  · obtain ⟨t, ht, rfl, rfl, rfl⟩ := h
    rw [List.nil_append, readVarint_eq_ok_iff.2 (Varint.read_raw_append ht rest)]
    rfl
  · obtain ⟨t, ⟨hlen, rfl⟩, rfl, rfl, rfl⟩ := h
    rw [List.nil_append, take_append_of_length (List.length_take_of_le hlen)]
    rfl
  · obtain ⟨t, ⟨hlen, rfl⟩, rfl, rfl, rfl⟩ := h
    rw [List.nil_append, take_append_of_length (List.length_take_of_le hlen)]
    rfl
  · obtain ⟨t, ht, u, ⟨hlen, rfl⟩, rfl, rfl, rfl⟩ := h
    rw [List.append_assoc, readVarint_eq_ok_iff.2 (Varint.read_raw_append ht _)]
    simp only [bind, Except.bind]
    rw [take_append_of_length (List.length_take_of_le hlen)]
    rfl

/-- A record that was read from somewhere is readable. -/
theorem readable_of_read {input left : Bytes} {r : Record} (h : read input = .ok (r, left)) :
    r.Readable := by
  intro rest
  simp only [read, bind_eq_ok_iff, pure_eq_ok_iff, Prod.mk.injEq] at h
  obtain ⟨key, hk, ⟨length, payload, after⟩, hp, rfl, rfl⟩ := h
  simp only [read, bytes, List.append_assoc]
  rw [Key.read_raw_append hk]
  simp only [bind, Except.bind]
  rw [← List.append_assoc, readPayload_raw_append hp]
  rfl

theorem Readable.isFieldNumber {r : Record} (h : r.Readable) : IsFieldNumber r.number := by
  have hr := h []
  simp only [read, bind_eq_ok_iff, pure_eq_ok_iff, Prod.mk.injEq] at hr
  obtain ⟨key, hk, x, -, he, -⟩ := hr
  rw [← he]
  exact (Key.read_eq_ok hk).2

/-- No group is readable. -/
theorem Readable.not_group {r : Record} (h : r.Readable) :
    r.wireType ≠ .startGroup ∧ r.wireType ≠ .endGroup := by
  have hr := h []
  simp only [read, bind_eq_ok_iff, pure_eq_ok_iff, Prod.mk.injEq] at hr
  obtain ⟨key, -, x, hp, he, -⟩ := hr
  rw [← he]
  constructor <;>
    · intro hg
      simp only at hg
      unfold readPayload at hp
      rw [hg] at hp
      cases hp

theorem readAll_cons {input rest : Bytes} {r : Record} (h : read input = .ok (r, rest)) :
    readAll input = (readAll rest).map (r :: ·) := by
  have hne : input.isEmpty = false := by
    have := read_length_lt h
    cases input with
    | nil => cases this
    | cons => rfl
  rw [readAll, hne, if_neg (by decide)]
  split
  · next e he =>
    rw [h] at he
    cases he
  · next r' rest' he =>
    rw [h] at he
    cases he
    cases readAll rest <;> rfl

@[simp] theorem readAll_nil : readAll [] = .ok [] := by
  rw [readAll, List.isEmpty_nil, if_pos rfl]

theorem readAll_of_read_error {input : Bytes} {e : Error} (hne : input ≠ [])
    (h : read input = .error e) : readAll input = .error e := by
  rw [readAll, if_neg (by simpa using hne)]
  split
  · next e' he =>
    rw [h] at he
    cases he
    rfl
  · next he =>
    rw [h] at he
    cases he

@[simp] theorem writeAll_nil : writeAll [] = [] := rfl

@[simp] theorem writeAll_cons (r : Record) (rs : List Record) :
    writeAll (r :: rs) = r.bytes ++ writeAll rs := rfl

@[simp] theorem writeAll_append (rs rs' : List Record) :
    writeAll (rs ++ rs') = writeAll rs ++ writeAll rs' :=
  List.flatMap_append

/-- Readable records are split off the front of a message. -/
theorem readAll_writeAll_append {rs : List Record} (h : ∀ r ∈ rs, r.Readable) (rest : Bytes) :
    readAll (writeAll rs ++ rest) = (readAll rest).map (rs ++ ·) := by
  induction rs with
  | nil => cases hr : readAll rest <;> simp [hr, Except.map]
  | cons r rs ih =>
    have hr := h r (List.mem_cons_self ..)
    have ih := ih fun r' hr' => h r' (List.mem_cons_of_mem _ hr')
    rw [writeAll_cons, List.append_assoc, readAll_cons (hr _), ih]
    cases readAll rest <;> rfl

/-- Readable records are the records of the message that they make up. -/
theorem readAll_writeAll {rs : List Record} (h : ∀ r ∈ rs, r.Readable) :
    readAll (writeAll rs) = .ok rs := by
  have := readAll_writeAll_append h []
  rw [List.append_nil, readAll_nil] at this
  rw [this]
  simp [Except.map]

theorem readable_of_readAll {input : Bytes} {rs : List Record} (h : readAll input = .ok rs) :
    ∀ r ∈ rs, r.Readable := by
  fun_induction readAll input generalizing rs with
  | case1 =>
    cases h
    intro r hr
    cases hr
  | case2 => cases h
  | case3 input _ r rest hr ih =>
    simp only [bind_eq_ok_iff, pure_eq_ok_iff] at h
    obtain ⟨rs', hrs, rfl⟩ := h
    intro r' hr'
    rcases List.mem_cons.1 hr' with rfl | hmem
    · exact readable_of_read hr
    · exact ih hrs r' hmem

/-- A message splits into some records if it is made up of them and each of them is readable. -/
theorem readAll_eq_ok_iff {input : Bytes} {rs : List Record} :
    readAll input = .ok rs ↔ writeAll rs = input ∧ ∀ r ∈ rs, r.Readable := by
  constructor
  · intro h
    exact ⟨writeAll_of_readAll h, readable_of_readAll h⟩
  · rintro ⟨rfl, h⟩
    exact readAll_writeAll h

/-! ## Records in their shortest form -/

theorem readPayload_delimited {number : Nat} {payload : Bytes} (h : payload.length < 2 ^ 64)
    (rest : Bytes) :
    readPayload ⟨number, .lengthDelimited⟩ (Varint.encode payload.length ++ (payload ++ rest)) =
      .ok (Varint.encode payload.length, payload, rest) := by
  simp only [readPayload, readVarint_eq_ok_iff.2 (Varint.read_encode h (payload ++ rest)), bind,
    Except.bind, take_append_of_length rfl, pure, Except.pure]

theorem readable_delimited {number : Nat} {payload : Bytes} (hn : IsFieldNumber number)
    (h : payload.length < 2 ^ 64) : (delimited number payload).Readable := by
  intro rest
  simp only [read, bytes, delimited, List.append_assoc]
  rw [Key.read_encode hn]
  simp only [bind, Except.bind]
  rw [readPayload_delimited h]
  rfl

theorem readable_plain_varint {number n : Nat} (hn : IsFieldNumber number) (h : n < 2 ^ 64) :
    (plain number .varint (Varint.encode n)).Readable := by
  intro rest
  simp only [read, bytes, plain, List.append_assoc]
  rw [Key.read_encode hn]
  simp only [bind, Except.bind, readPayload, readVarint_eq_ok_iff.2 (Varint.read_encode h rest),
    pure, Except.pure, List.append_nil]

theorem readable_plain_fixed {number : Nat} {wireType : WireType} {payload : Bytes}
    (hn : IsFieldNumber number)
    (h : (wireType = .thirtyTwoBit ∧ payload.length = 4) ∨
      (wireType = .sixtyFourBit ∧ payload.length = 8)) :
    (plain number wireType payload).Readable := by
  intro rest
  simp only [read, bytes, plain, List.append_assoc]
  rw [Key.read_encode hn]
  rcases h with ⟨rfl, hlen⟩ | ⟨rfl, hlen⟩ <;>
    simp only [bind, Except.bind, readPayload, take_append_of_length hlen, pure, Except.pure,
      List.append_nil]

/-- Nothing is read from a record whose length is no varint. -/
theorem read_delimited_of_long {number : Nat} {payload : Bytes} (hn : IsFieldNumber number)
    (h : 2 ^ 64 ≤ payload.length) (rest : Bytes) :
    read ((delimited number payload).bytes ++ rest) = .error .invalidVarint := by
  simp only [read, bytes, delimited, List.append_assoc]
  rw [Key.read_encode hn]
  simp only [bind, Except.bind, readPayload, readVarint, Varint.read_encode_eq_none h]

end Record

end QuantClassifier.Wire
