import QuantClassifier.Proofs.Wire.Grammar
import QuantClassifier.Proofs.Wire.LawfulUpdate

/-!
# Updates that write back what they find

A reader takes padded varints, while an update writes each key and each length on its path in the
shortest form, which is the only one of its length (`Varint.shortest_iff`). An update that writes
back the payload that it finds thus takes away the padding on the path: what it gives is normal
along the path (`shortestAlong_of_replace?`), and a message that is normal stays as it is
(`replace?_of_shortestAlong`), from which everything else that is said of such an update follows
(`update_normalizes`).
-/

namespace QuantClassifier.Wire

/-! ## The shortest form of a varint -/

namespace Varint

/-- The bytes are a varint of a number, and no varint of that number has fewer bytes. -/
structure Shortest (bytes : Bytes) (n : Nat) : Prop where
  spells : Spells bytes n
  length_le : ∀ other, Spells other n → bytes.length ≤ other.length

section Shortest

variable {bytes : Bytes} {m n : Nat}

theorem spells_encode (h : n < 2 ^ 64) : Spells (encode n) n :=
  (read_eq_some_iff.1 (read_encode h [])).1

theorem length_encode_pos (n : Nat) : 0 < (encode n).length :=
  List.length_pos_iff.2 (encode_ne_nil n)

theorem encode_of_le (h : 128 ≤ n) :
    encode n = UInt8.ofNat (n % 128 + 128) :: encode (n / 128) := by
  rw [encode, if_neg (by omega)]

/-- A greater number has no shorter form. -/
theorem length_encode_mono (h : m ≤ n) : (encode m).length ≤ (encode n).length := by
  fun_induction encode m generalizing n with
  | case1 m hm => exact length_encode_pos n
  | case2 m hm ih =>
    have hdiv := ih (Nat.div_le_div_right h)
    rw [encode_of_le (show 128 ≤ n by omega), List.length_cons, List.length_cons]
    omega

theorem Digits.length_pos (h : Digits bytes n) : 0 < bytes.length := by
  cases h <;> exact Nat.succ_pos _

/-- The first digit of a number leaves the rest of the number to the other digits. -/
theorem add_mul_div {b : UInt8} (hb : 128 ≤ b.toNat) (n : Nat) :
    (b.toNat - 128 + 128 * n) / 128 = n := by
  have := b.toNat_lt
  omega

theorem Digits.length_encode_le (h : Digits bytes n) : (encode n).length ≤ bytes.length := by
  induction h with
  | last hb =>
    rw [encode, if_pos hb]
    exact Nat.le_refl _
  | @more b bytes n hb hdigits ih =>
    rw [encode]
    split
    · exact Nat.succ_le_succ (Nat.zero_le _)
    · rw [add_mul_div hb, List.length_cons, List.length_cons]
      omega

/-- There is one form of the least length. -/
theorem Digits.eq_encode (h : Digits bytes n) (hlen : bytes.length ≤ (encode n).length) :
    bytes = encode n := by
  induction h with
  | last hb =>
    rw [encode, if_pos hb, UInt8.ofNat_toNat]
  | @more b bytes n hb hdigits ih =>
    have hpos := hdigits.length_pos
    have hlt := b.toNat_lt
    rw [encode] at hlen ⊢
    split at hlen
    · simp only [List.length_cons, List.length_nil] at hlen
      omega
    · next hbig =>
      rw [add_mul_div hb, List.length_cons, List.length_cons] at hlen
      have hdigit : (b.toNat - 128 + 128 * n) % 128 + 128 = b.toNat := by omega
      rw [if_neg hbig, add_mul_div hb, hdigit, UInt8.ofNat_toNat, ← ih (by omega)]

theorem shortest_iff : Shortest bytes n ↔ bytes = encode n ∧ n < 2 ^ 64 := by
  constructor
  · intro h
    have hlt := h.spells.lt
    exact ⟨h.spells.digits.eq_encode (h.length_le _ (spells_encode hlt)), hlt⟩
  · rintro ⟨rfl, hlt⟩
    exact ⟨spells_encode hlt, fun _ h => h.digits.length_encode_le⟩

end Shortest

end Varint

/-! ## The shortest form of a record -/

namespace Record

/-- The key and the length in front of a delimited payload have their shortest forms. -/
def IsShortest (r : Record) : Prop :=
  ∃ key length, r.head = key ++ length ∧
    Varint.Shortest key (r.number * 8 + r.wireType.code) ∧ Varint.Shortest length r.payload.length

section Step

variable {r : Record} {number : Nat} {inner : Bytes}

/-- What stands in front of a payload that a path enters. -/
theorem exists_head (hr : r.Readable) (hstep : r.isStep number = true) :
    ∃ key length, r.head = key ++ length ∧
      Varint.Spells key (Key.code ⟨number, .lengthDelimited⟩) ∧
      Varint.Spells length r.payload.length := by
  obtain ⟨hnumber, hwire⟩ := isStep_iff.1 hstep
  obtain ⟨key, length, hhead, hkey, hpayload⟩ := (isRecord_iff_readable.2 hr).parts
  rw [hnumber, hwire] at hkey
  rw [hwire] at hpayload
  cases hpayload with
  | lengthDelimited hlength => exact ⟨key, length, hhead, hkey, hlength⟩

theorem length_payload_lt (hr : r.Readable) (hstep : r.isStep number = true) :
    r.payload.length < 2 ^ 64 := by
  obtain ⟨-, length, -, -, hlength⟩ := exists_head hr hstep
  exact hlength.lt

/-- A record with the shortest head and a payload that is no longer is itself no longer. -/
theorem length_bytes_delimited_le_bytes (hr : r.Readable) (hstep : r.isStep number = true)
    (hinner : inner.length ≤ r.payload.length) :
    (delimited number inner).bytes.length ≤ r.bytes.length := by
  obtain ⟨key, length, hhead, hkey, hlength⟩ := exists_head hr hstep
  have hkeyLen : (Key.encode ⟨number, .lengthDelimited⟩).length ≤ key.length :=
    hkey.digits.length_encode_le
  have hlengthLen := hlength.digits.length_encode_le
  have hmono := Varint.length_encode_mono hinner
  rw [bytes, bytes, hhead]
  simp only [delimited, List.length_append]
  omega

/-- A record that a path enters is what an update would write, if its head is the shortest. -/
theorem isShortest_iff (hr : r.Readable) (hstep : r.isStep number = true) :
    r.IsShortest ↔ .delimited number r.payload = r := by
  obtain ⟨hnumber, hwire⟩ := isStep_iff.1 hstep
  obtain ⟨key, length, hhead, hkey, hlength⟩ := exists_head hr hstep
  constructor
  · rintro ⟨key', length', hhead', hkey', hlength'⟩
    rw [hnumber, hwire] at hkey'
    obtain ⟨n, w, head, payload⟩ := r
    cases hnumber
    cases hwire
    cases hhead'
    rw [(Varint.shortest_iff.1 hkey').1, (Varint.shortest_iff.1 hlength').1]
    rfl
  · intro h
    rw [← h]
    exact ⟨_, _, rfl, Varint.shortest_iff.2 ⟨rfl, hkey.lt⟩,
      Varint.shortest_iff.2 ⟨rfl, hlength.lt⟩⟩

end Step

end Record

/-! ## Messages that are normal along a path -/

/-- Every record that the walk along a path enters has the shortest key and length. -/
def ShortestAlong (path : List Nat) (msg : Bytes) : Prop :=
  ∀ front number back message records step, path = front ++ number :: back →
    select? front msg = some message → Record.readAll message = .ok records →
    records.find? (Record.isStep number) = some step → step.IsShortest

section Normal

variable {number : Nat} {path : List Nat} {msg old out : Bytes} {records : List Record}
  {step : Record}

theorem shortestAlong_nil : ShortestAlong [] msg := by
  intro front number back message records step hpath
  cases front <;> cases hpath

theorem shortestAlong_cons (hall : Record.readAll msg = .ok records)
    (hstep : records.find? (Record.isStep number) = some step) :
    ShortestAlong (number :: path) msg ↔ step.IsShortest ∧ ShortestAlong path step.payload := by
  constructor
  · intro h
    refine ⟨h [] number path msg records step rfl rfl hall hstep, ?_⟩
    rintro front number' back message records' step' rfl hsel
    exact h (number :: front) number' back message records' step' rfl
      (select?_cons_eq_some_iff.2 ⟨records, step, hall, hstep, hsel⟩)
  · rintro ⟨hshort, hrest⟩ front number' back message records' step' hpath hsel hall' hstep'
    cases front with
    | nil =>
      cases hpath
      cases hsel
      cases hall.symm.trans hall'
      cases hstep.symm.trans hstep'
      exact hshort
    | cons k front =>
      cases hpath
      rw [select?_cons hall hstep] at hsel
      exact hrest front number' back message records' step' rfl hsel hall' hstep'

theorem readable_of_find? (hall : Record.readAll msg = .ok records)
    (hstep : records.find? (Record.isStep number) = some step) : step.Readable :=
  Record.readable_of_readAll hall step (List.mem_of_find?_eq_some hstep)

/-- Writing back what is there makes no message longer: where the payload has become shorter, its
length has too. -/
theorem length_replace?_self_le (hold : select? path msg = some old)
    (h : replace? old path msg = some out) : out.length ≤ msg.length := by
  induction path generalizing msg out with
  | nil =>
    cases hold
    cases h
    exact Nat.le_refl _
  | cons number path ih =>
    obtain ⟨records, step, inner, hall, hstep, hold, hrep, rfl⟩ := level_of_replace? hold h
    have hbytes := Record.length_bytes_delimited_le_bytes (readable_of_find? hall hstep)
      (List.find?_some hstep) (ih hold hrep)
    have hadd := length_replaceFirst_add hstep (.delimited number inner)
    rw [Record.writeAll_of_readAll hall] at hadd
    omega

/-- Writing back what is there gives a message that is normal along the path, with the same payload
at its end. -/
theorem shortestAlong_of_replace? (hold : select? path msg = some old)
    (h : replace? old path msg = some out) :
    select? path out = some old ∧ ShortestAlong path out := by
  induction path generalizing msg out with
  | nil =>
    cases h
    exact ⟨rfl, shortestAlong_nil⟩
  | cons number path ih =>
    obtain ⟨records, step, inner, hall, hstep, hold, hrep, rfl⟩ := level_of_replace? hold h
    -- The new payload is no longer than the one that was read, so its length can be read too.
    have hinner := length_replace?_self_le hold hrep
    have hlt := Record.length_payload_lt (readable_of_find? hall hstep) (List.find?_some hstep)
    have hall' := readAll_replaceFirst hall hstep (show inner.length < 2 ^ 64 by omega)
    have hstep' := find?_replaceFirst_self (Record.isStep_delimited number inner) hstep
    have hshort := (Record.isShortest_iff (readable_of_find? hall' hstep')
      (Record.isStep_delimited number inner)).2 rfl
    obtain ⟨hselect, hnormal⟩ := ih hold hrep
    exact ⟨(select?_cons hall' hstep').trans hselect,
      (shortestAlong_cons hall' hstep').2 ⟨hshort, hnormal⟩⟩

/-- In a message that is normal along a path, writing back what is there changes nothing. -/
theorem replace?_of_shortestAlong (hold : select? path msg = some old)
    (h : ShortestAlong path msg) : replace? old path msg = some msg := by
  induction path generalizing msg with
  | nil =>
    cases hold
    rfl
  | cons number path ih =>
    obtain ⟨records, step, hall, hstep, hold⟩ := select?_cons_eq_some_iff.1 hold
    obtain ⟨hshort, hrest⟩ := (shortestAlong_cons hall hstep).1 h
    have hself := (Record.isShortest_iff (readable_of_find? hall hstep)
      (List.find?_some hstep)).1 hshort
    rw [replace?_cons hall hstep, ih hold hrest, Option.map_some, hself,
      replaceFirst_of_find? hstep, Record.writeAll_of_readAll hall]

end Normal

/-- An update that writes back what it finds succeeds wherever there is something to find. It makes
the message no longer and leaves the payload as it was, it leaves the whole message as it was
exactly if the keys and the lengths of all records on the path have their shortest forms, and what
it gives it gives again. -/
theorem update_normalizes {ε : Type} {path : List Nat} {msg old : Bytes}
    (h : select? path msg = some old) :
    ∃ out, update (Except.ok : Bytes → Except ε Bytes) path msg = .ok (some out) ∧
      out.length ≤ msg.length ∧ select? path out = some old ∧
      (out = msg ↔ ShortestAlong path msg) ∧
      update (Except.ok : Bytes → Except ε Bytes) path out = .ok (some out) := by
  obtain ⟨out, hout⟩ := exists_replace? h old
  obtain ⟨hselect, hnormal⟩ := shortestAlong_of_replace? h hout
  have hagain := replace?_of_shortestAlong hselect hnormal
  refine ⟨out, update_eq_ok_some_iff.2 ⟨old, old, h, rfl, hout⟩, length_replace?_self_le h hout,
    hselect, ⟨?_, ?_⟩, update_eq_ok_some_iff.2 ⟨old, old, hselect, rfl, hagain⟩⟩
  · rintro rfl
    exact hnormal
  · intro hshort
    rw [replace?_of_shortestAlong h hshort] at hout
    exact (Option.some.inj hout).symm

/-- `nestedMessage` without the padding of the record that a path of two steps enters first. -/
def shortenedMessage : Bytes :=
  [0x08, 0x05, 0x0A, 0x06, 0x38, 0x01, 0x3A, 0x02, 0x61, 0x62, 0x0A, 0x00]

theorem update_normalizes_nestedMessage :
    let same : Bytes → Except Unit Bytes := .ok
    select? [1, 7] nestedMessage = some [0x61, 0x62] ∧
      update same [1, 7] nestedMessage = .ok (some shortenedMessage) ∧
      shortenedMessage.length < nestedMessage.length ∧
      ¬ ShortestAlong [1, 7] nestedMessage ∧
      update same [1, 7] shortenedMessage = .ok (some shortenedMessage) := by
  intro same
  have hselect : select? [1, 7] nestedMessage = some [0x61, 0x62] := by decide +kernel
  have hupdate : update same [1, 7] nestedMessage = .ok (some shortenedMessage) :=
    toOption_eq_some_iff.1 (by decide +kernel)
  obtain ⟨out, hout, -, -, hunchanged, hagain⟩ := update_normalizes hselect
  cases hupdate.symm.trans hout
  refine ⟨hselect, hupdate, by decide, ?_, hagain⟩
  rw [← hunchanged]
  decide

end QuantClassifier.Wire
