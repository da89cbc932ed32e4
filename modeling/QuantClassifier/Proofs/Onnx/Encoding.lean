import QuantClassifier.Onnx.Encode
import QuantClassifier.Proofs.Binary.LittleEndian
import QuantClassifier.Proofs.Onnx.Walking

/-!
# Encodings that decode to their message

A message that its encoding decodes to is encoded in records that are read back one by one
(`RoundTrips.readAll_encode`). Paths lead to the encodings of the messages that they lead to
(`RoundTrips.select?_encode`), writing there is editing the message (`RoundTrips.replace?_encode`),
and such an encoding is plain on every path (`RoundTrips.plainAlong`).
-/

namespace QuantClassifier.Onnx

open Wire Message

/-- The encoding of a message decodes to it. -/
def RoundTrips (budget : Nat) (t : MessageType) (m : Message) : Prop :=
  decodeInto budget t [] (encode m) = some m

namespace Value

variable {v : Value} {number : Nat}

theorem number_record (v : Value) (number : Nat) : (v.record number).number = number := by
  cases v <;> rfl

/-- A record begins with its shortest key. -/
theorem exists_bytes_record (v : Value) (number : Nat) :
    ∃ wireType rest, (v.record number).bytes = Key.encode ⟨number, wireType⟩ ++ rest := by
  cases v <;>
    simp only [record, Record.bytes, Record.plain, Record.delimited, List.append_assoc] <;>
    exact ⟨_, _, rfl⟩

theorem readable_record (hn : IsFieldNumber number)
    (hlen : (v.record number).payload.length < 2 ^ 64) : (v.record number).Readable := by
  cases v with
  | int n =>
    have hlt : (n % 0x10000000000000000).toNat < 2 ^ 64 := by omega
    exact Record.readable_plain_varint hn hlt
  | float x => exact Record.readable_plain_fixed hn (Or.inl ⟨rfl, LittleEndian.length_ofNat 4 _⟩)
  | double x => exact Record.readable_plain_fixed hn (Or.inr ⟨rfl, LittleEndian.length_ofNat 8 _⟩)
  | bytes b => exact Record.readable_delimited hn hlen
  | ints ns => exact Record.readable_delimited hn hlen
  | floats xs => exact Record.readable_delimited hn hlen
  | doubles xs => exact Record.readable_delimited hn hlen
  | message m => exact Record.readable_delimited hn hlen

theorem record_message (number : Nat) (m : Message) :
    (message m).record number = .delimited number (encode m) := by
  rw [record]
  rfl

end Value

section Fields

variable {m sub : Message} {number : Nat} {f : Message → Message}

theorem fieldRecords_cons (number : Nat) (v : Value) (m : Message) :
    fieldRecords ((number, v) :: m) = v.record number :: fieldRecords m := by
  rw [fieldRecords]

theorem countP_fieldRecords (m : Message) (number : Nat) :
    (fieldRecords m).countP (·.number = number) = m.countOf number := by
  induction m with
  | nil => rfl
  | cons p m ih =>
    obtain ⟨k, v⟩ := p
    rw [fieldRecords_cons, List.countP_cons, countOf_cons, ih, Value.number_record]
    simp

theorem fieldRecords_erase (m : Message) (number : Nat) :
    fieldRecords (m.erase number) = (fieldRecords m).filter (·.number ≠ number) := by
  induction m with
  | nil => rfl
  | cons p m ih =>
    obtain ⟨k, v⟩ := p
    have hnumber := Value.number_record v k
    rw [fieldRecords_cons]
    by_cases hk : k = number
    · subst hk
      rw [erase_cons_self, ih, List.filter_cons_of_neg (by simp [hnumber])]
    · rw [erase_cons_of_ne hk, fieldRecords_cons, ih,
        List.filter_cons_of_pos (by simp [hnumber, hk])]

theorem not_isStep_record {k : Nat} (h : k ≠ number) (v : Value) :
    (v.record k).isStep number = false := by
  rw [← Bool.not_eq_true, Record.isStep_iff, Value.number_record]
  intro hstep
  exact h hstep.1

/-- The first step of a field of messages is the record of its first message. -/
theorem find?_fieldRecords (h : m.child? number = some sub) :
    (fieldRecords m).find? (Record.isStep number) = some (.delimited number (encode sub)) := by
  rw [child?_eq_some_iff] at h
  induction m with
  | nil => cases h
  | cons p m ih =>
    obtain ⟨k, v⟩ := p
    rw [get?_cons] at h
    rw [fieldRecords_cons]
    split at h
    · next hk =>
      cases h
      subst hk
      rw [Value.record_message, List.find?_cons_of_pos (Record.isStep_delimited k _)]
    · next hk =>
      rw [List.find?_cons_of_neg (by simp [not_isStep_record hk]), ih h]

theorem fieldRecords_modifyChild (h : m.child? number = some sub) (f : Message → Message) :
    fieldRecords (m.modifyChild number f) =
      replaceFirst (Record.isStep number) (.delimited number (encode (f sub)))
        (fieldRecords m) := by
  rw [child?_eq_some_iff] at h
  induction m with
  | nil => cases h
  | cons p m ih =>
    obtain ⟨k, v⟩ := p
    rw [get?_cons] at h
    split at h
    · next hk =>
      cases h
      subst hk
      rw [modifyChild_cons_message, fieldRecords_cons, fieldRecords_cons, Value.record_message,
        Value.record_message, replaceFirst, if_pos (Record.isStep_delimited k _)]
    · next hk =>
      rw [modifyChild_cons_of_ne hk, fieldRecords_cons, fieldRecords_cons, replaceFirst,
        if_neg (by simp [not_isStep_record hk]), ih h]

theorem length_encode_child_le (h : m.child? number = some sub) :
    (encode sub).length ≤ (encode m).length :=
  Record.length_payload_le (List.mem_of_find?_eq_some (find?_fieldRecords h))

end Fields

section RoundTrips

variable {enter : MessageType → Message → Bytes → Option Message} {budget number : Nat}
  {t child : MessageType} {m m₀ m' sub : Message} {path : List Nat}

/-- What is encoded and decoded was written in readable records. -/
theorem readable_of_decodeRecords
    (h : decodeRecords enter budget t m₀ (Record.writeAll (fieldRecords m)) = some m')
    (hlen : (Record.writeAll (fieldRecords m)).length < 2 ^ 64) :
    ∀ r ∈ fieldRecords m, r.Readable := by
  induction m generalizing m₀ with
  | nil =>
    intro r hr
    cases hr
  | cons p m ih =>
    obtain ⟨k, v⟩ := p
    rw [fieldRecords_cons, Record.writeAll_cons] at h hlen
    obtain ⟨wireType, rest, hbytes⟩ := Value.exists_bytes_record v k
    have hne : (v.record k).bytes ++ Record.writeAll (fieldRecords m) ≠ [] := by
      rw [hbytes]
      simp [Key.encode, Varint.encode_ne_nil]
    obtain ⟨key, hkey⟩ := key_of_decodeRecords hne h
    rw [hbytes, List.append_assoc] at hkey
    have hnumber := (Key.read_eq_ok hkey).2
    rw [Key.eq_of_read_encode hkey] at hnumber
    rw [List.length_append] at hlen
    have hpayload : (v.record k).payload.length ≤ (v.record k).bytes.length := by
      rw [Record.bytes, List.length_append]
      omega
    have hread := Value.readable_record hnumber (show (v.record k).payload.length < 2 ^ 64 by omega)
    rw [decodeRecords_of_read (hread _)] at h
    obtain ⟨m₁, -, h⟩ := Option.bind_eq_some_iff.1 h
    intro r hr
    rw [fieldRecords_cons] at hr
    rcases List.mem_cons.1 hr with rfl | hr
    · exact hread
    · exact ih h (by omega) r hr

namespace RoundTrips

theorem readAll_encode (h : RoundTrips budget t m) (hlen : (encode m).length < 2 ^ 64) :
    Record.readAll (encode m) = .ok (fieldRecords m) := by
  rw [RoundTrips, decodeInto_eq] at h
  exact Record.readAll_writeAll (readable_of_decodeRecords h hlen)

theorem foldlM_fieldRecords (h : RoundTrips budget t m) (hlen : (encode m).length < 2 ^ 64) :
    (fieldRecords m).foldlM (absorb (enterBelow budget) budget t) [] = some m := by
  rw [← decodeRecords_of_readAll (h.readAll_encode hlen), ← decodeInto_eq]
  exact h

theorem ascending (h : RoundTrips budget t m) (hlen : (encode m).length < 2 ^ 64) : m.Ascending :=
  ascending_foldlM_absorb .nil (h.foldlM_fieldRecords hlen)

theorem countOf_le_one (h : RoundTrips budget t m) (hlen : (encode m).length < 2 ^ 64)
    (hsingle : t.isRepeated number = false) : m.countOf number ≤ 1 :=
  countOf_foldlM_absorb_le hsingle .nil (Nat.zero_le _) (h.foldlM_fieldRecords hlen)

theorem isFieldNumber (h : RoundTrips budget t m) (hlen : (encode m).length < 2 ^ 64) :
    ∀ p ∈ m, IsFieldNumber p.1 := by
  have hread := Record.readable_of_readAll (h.readAll_encode hlen)
  have hmem : ∀ p ∈ m, p.2.record p.1 ∈ fieldRecords m := by
    clear h hlen hread
    induction m with
    | nil =>
      intro p hp
      cases hp
    | cons q m ih =>
      intro p hp
      rw [fieldRecords_cons]
      rcases List.mem_cons.1 hp with rfl | hp
      · exact List.mem_cons_self ..
      · exact List.mem_cons_of_mem _ (ih p hp)
  intro p hp
  have hnumber := (hread _ (hmem p hp)).isFieldNumber
  rwa [Value.number_record] at hnumber

/-- One step of a path in an encoding. -/
theorem step (h : RoundTrips (budget + 1) t m) (hlen : (encode m).length < 2 ^ 64)
    (hchild : t.childType? number = some child) :
    ((fieldRecords m).find? (Record.isStep number) = none ∧ m.child? number = none) ∨
      ∃ sub, m.child? number = some sub ∧ RoundTrips budget child sub ∧
        (fieldRecords m).find? (Record.isStep number) = some (.delimited number (encode sub)) := by
  have hone : t.isRepeated number = false →
      (fieldRecords m).countP (·.number = number) ≤ 1 := by
    intro hsingle
    rw [countP_fieldRecords]
    exact h.countOf_le_one hlen hsingle
  rcases step_of_foldlM hchild hone (h.foldlM_fieldRecords hlen) with
    ⟨hfind, hnone⟩ | ⟨step, sub, hstep, henter, hsub, -⟩
  · exact Or.inl ⟨hfind, by rw [child?, hnone, Option.bind_none]⟩
  · have hfind := find?_fieldRecords hsub
    cases hstep.symm.trans hfind
    exact Or.inr ⟨sub, hsub, henter, hfind⟩

theorem of_child? (h : RoundTrips (budget + 1) t m) (hlen : (encode m).length < 2 ^ 64)
    (hchild : t.childType? number = some child) (hsub : m.child? number = some sub) :
    RoundTrips budget child sub := by
  rcases h.step hlen hchild with ⟨-, hnone⟩ | ⟨sub', hsub', hround, -⟩
  · rw [hnone] at hsub
    cases hsub
  · cases hsub.symm.trans hsub'
    exact hround

/-- What a path leads to in a message it leads to in its encoding. -/
theorem select?_encode (h : RoundTrips (budget + path.length) t m)
    (hlen : (encode m).length < 2 ^ 64) (ht : t.childTypeAt? path = some child)
    (hsub : m.childAt? path = some sub) :
    select? path (encode m) = some (encode sub) ∧ RoundTrips budget child sub ∧
      (encode sub).length ≤ (encode m).length := by
  induction path generalizing t m with
  | nil =>
    cases ht
    cases hsub
    exact ⟨rfl, h, Nat.le_refl _⟩
  | cons number path ih =>
    obtain ⟨u, hchild, ht⟩ := Option.bind_eq_some_iff.1 ht
    obtain ⟨sub₁, hsub₁, hsub⟩ := Option.bind_eq_some_iff.1 hsub
    have hle := length_encode_child_le hsub₁
    obtain ⟨hsel, hround, hle'⟩ := ih (h.of_child? hlen hchild hsub₁) (by omega) ht hsub
    rw [select?_cons (h.readAll_encode hlen) (find?_fieldRecords hsub₁)]
    exact ⟨hsel, hround, by omega⟩

/-- Writing the encoding of an edited message is encoding the edit. -/
theorem replace?_encode (h : RoundTrips (budget + path.length) t m)
    (hlen : (encode m).length < 2 ^ 64) (ht : t.childTypeAt? path = some child)
    (hsub : m.childAt? path = some sub) (f : Message → Message) :
    replace? (encode (f sub)) path (encode m) = some (encode (m.modifyAt path f)) := by
  induction path generalizing t m with
  | nil =>
    cases hsub
    rfl
  | cons number path ih =>
    obtain ⟨u, hchild, ht⟩ := Option.bind_eq_some_iff.1 ht
    obtain ⟨sub₁, hsub₁, hsub⟩ := Option.bind_eq_some_iff.1 hsub
    have hle := length_encode_child_le hsub₁
    have hinner := ih (h.of_child? hlen hchild hsub₁) (by omega) ht hsub
    rw [replace?_cons (h.readAll_encode hlen) (find?_fieldRecords hsub₁), Record.payload_delimited,
      hinner, Option.map_some, ← fieldRecords_modifyChild hsub₁ (modifyAt path f)]
    rfl

/-- Nothing is split or grouped in an encoding. -/
theorem plainAlong (h : RoundTrips (budget + path.length) t m)
    (hlen : (encode m).length < 2 ^ 64) (ht : t.childTypeAt? path = some child) :
    PlainAlong path t (encode m) := by
  have hall := h.readAll_encode hlen
  have hfree : GroupFree (encode m) := by
    intro number hgroup
    rw [hall] at hgroup
    cases hgroup
  induction path generalizing t m with
  | nil => exact hfree
  | cons number path ih =>
    obtain ⟨u, hchild, ht⟩ := Option.bind_eq_some_iff.1 ht
    refine ⟨hfree, ?_⟩
    intro records hrecords
    cases hall.symm.trans hrecords
    refine ⟨?_, ?_⟩
    · intro hsingle
      rw [countP_fieldRecords]
      exact h.countOf_le_one hlen hsingle
    · intro step child' hstep hchild'
      cases hchild.symm.trans hchild'
      rcases h.step hlen hchild with ⟨hnone, -⟩ | ⟨sub, hsub, hround, hfind⟩
      · rw [hnone] at hstep
        cases hstep
      · cases hfind.symm.trans hstep
        have hle := length_encode_child_le hsub
        have hsubLen : (encode sub).length < 2 ^ 64 := by omega
        have hall' := hround.readAll_encode hsubLen
        apply ih hround hsubLen ht hall'
        intro number hgroup
        rw [hall'] at hgroup
        cases hgroup

end RoundTrips

end RoundTrips

end QuantClassifier.Onnx
