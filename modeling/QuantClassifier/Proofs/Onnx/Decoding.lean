import QuantClassifier.Proofs.Onnx.Nested
import QuantClassifier.Proofs.Wire.Reading

/-!
# Decoding record by record

A message without groups is decoded by absorbing its records one after the other
(`decodeRecords_of_readAll`), and whatever is decoded splits into records unless it has a group
(`readAll_of_decodeRecords`).
-/

namespace QuantClassifier.Onnx

open Wire

/-- What the message decoded so far becomes by one more record. -/
def absorb (enter : MessageType → Message → Bytes → Option Message) (budget : Nat)
    (t : MessageType) (m : Message) (r : Record) : Option Message :=
  match t.field? r.number with
  | some f => f.decode enter r.wireType r.payload m
  | none => if budget = 0 then none else some m

/-- How the messages below one that is decoded with a budget are decoded. -/
def enterBelow : (budget : Nat) → MessageType → Message → Bytes → Option Message
  | 0 => fun _ _ _ => none
  | budget + 1 => decodeInto budget

theorem decodeInto_eq (budget : Nat) :
    decodeInto budget = decodeRecords (enterBelow budget) budget := by
  cases budget <;> rfl

section Records

variable {enter : MessageType → Message → Bytes → Option Message} {budget : Nat}
  {t : MessageType} {m m' : Message} {input rest : Bytes} {r : Record} {records : List Record}

@[simp] theorem decodeRecords_nil : decodeRecords enter budget t m [] = some m := by
  rw [decodeRecords, if_pos List.isEmpty_nil]

theorem decodeRecords_of_read (h : Record.read input = .ok (r, rest)) :
    decodeRecords enter budget t m input =
      (absorb enter budget t m r).bind fun m' => decodeRecords enter budget t m' rest := by
  have hne : ¬ input.isEmpty = true := by
    have := Record.read_length_lt h
    intro he
    rw [List.isEmpty_iff.1 he] at this
    cases this
  have hgroup := (Record.readable_of_read h).not_group.1
  simp only [Record.read, bind_eq_ok_iff, pure_eq_ok_iff, Prod.mk.injEq] at h
  obtain ⟨key, hk, ⟨length, payload, left⟩, hp, rfl, rfl⟩ := h
  rw [decodeRecords, if_neg hne]
  split
  · next e he =>
    rw [hk] at he
    cases he
  · next key' hk' =>
    rw [hk] at hk'
    cases hk'
    cases hf : t.field? key.value.number with
    | some f =>
      simp only [absorb, hf]
      split
      · next e he =>
        rw [hp] at he
        cases he
      · next length' payload' left' hp' =>
        rw [hp] at hp'
        cases hp'
        cases f.decode enter key.value.wireType payload m <;> rfl
    | none =>
      simp only [absorb, hf]
      split
      · rfl
      · split
        · next e he =>
          rw [hp] at he
          cases he
        · next length' payload' left' hp' =>
          rw [hp] at hp'
          cases hp'
          rfl

/-- A message that begins with readable records is decoded by absorbing them first. -/
theorem decodeRecords_writeAll_append (h : ∀ r ∈ records, r.Readable) :
    decodeRecords enter budget t m (Record.writeAll records ++ rest) =
      (records.foldlM (absorb enter budget t) m).bind fun m' =>
        decodeRecords enter budget t m' rest := by
  induction records generalizing m with
  | nil => rfl
  | cons r records ih =>
    have hr := h r (List.mem_cons_self ..)
    rw [Record.writeAll_cons, List.append_assoc, decodeRecords_of_read (hr _), List.foldlM_cons]
    cases absorb enter budget t m r with
    | none => rfl
    | some m' =>
      apply ih
      intro r' hr'
      exact h r' (List.mem_cons_of_mem _ hr')

theorem decodeRecords_of_readAll (h : Record.readAll input = .ok records) :
    decodeRecords enter budget t m input = records.foldlM (absorb enter budget t) m := by
  have happend : decodeRecords enter budget t m (Record.writeAll records ++ []) = _ :=
    decodeRecords_writeAll_append (Record.readable_of_readAll h)
  rw [List.append_nil, Record.writeAll_of_readAll h] at happend
  rw [happend]
  cases records.foldlM (absorb enter budget t) m with
  | none => rfl
  | some m' => exact decodeRecords_nil

/-- What is decoded begins with a key. -/
theorem key_of_decodeRecords (hne : input ≠ [])
    (h : decodeRecords enter budget t m input = some m') : ∃ key, Key.read input = .ok key := by
  rw [decodeRecords, if_neg (by simpa using hne)] at h
  split at h
  · cases h
  · next key hk => exact ⟨key, hk⟩

/-- What is decoded begins with a record or with a group. -/
theorem read_of_decodeRecords (hne : input ≠ [])
    (h : decodeRecords enter budget t m input = some m') :
    (∃ r rest, Record.read input = .ok (r, rest)) ∨
      ∃ number, Record.read input = .error (.group number) := by
  rw [decodeRecords, if_neg (by simpa using hne)] at h
  split at h
  · cases h
  · next key hk =>
    have hread : ∀ x, Record.readPayload key.value key.rest = .ok x →
        ∃ r rest, Record.read input = .ok (r, rest) := by
      rintro ⟨length, payload, left⟩ hp
      simp only [Record.read, hk, hp, bind, Except.bind, pure, Except.pure]
      exact ⟨_, _, rfl⟩
    split at h
    · split at h
      · cases h
      · next hp => exact Or.inl (hread _ hp)
    · split at h
      · cases h
      · split at h
        · next hg =>
          refine Or.inr ⟨key.value.number, ?_⟩
          simp only [Record.read, hk, bind, Except.bind, Record.readPayload, hg]
        · split at h
          · cases h
          · next hp => exact Or.inl (hread _ hp)

/-- What is decoded splits into records unless it has a group. -/
theorem readAll_of_decodeRecords (h : decodeRecords enter budget t m input = some m') :
    (∃ records, Record.readAll input = .ok records) ∨
      ∃ number, Record.readAll input = .error (.group number) := by
  induction hlen : input.length using Nat.strongRecOn generalizing input m with
  | ind n ih =>
    by_cases hne : input = []
    · exact Or.inl ⟨[], hne ▸ Record.readAll_nil⟩
    · rcases read_of_decodeRecords hne h with ⟨r, rest, hr⟩ | ⟨number, hr⟩
      · rw [decodeRecords_of_read hr, Option.bind_eq_some_iff] at h
        obtain ⟨m₁, -, h⟩ := h
        have hlt := Record.read_length_lt hr
        rw [Record.readAll_cons hr]
        rcases ih rest.length (by omega) h rfl with ⟨records, hall⟩ | ⟨number, hall⟩
        · exact Or.inl ⟨r :: records, by rw [hall]; rfl⟩
        · exact Or.inr ⟨number, by rw [hall]; rfl⟩
      · exact Or.inr ⟨number, Record.readAll_of_read_error hne hr⟩

end Records

end QuantClassifier.Onnx
