import QuantClassifier.Onnx.BatchDimension
import QuantClassifier.Proofs.Onnx.ScalarCoding
import QuantClassifier.Proofs.Onnx.Walking

/-!
# A pinned dimension

A dimension is pinned by a record of its new value in front of all its records but those of a value.
What was pinned before leaves no trace (`pinDimension_pinDimension`), and a pinned dimension decodes
to the dimension with its value set (`decodeInto_pinDimension`), whatever values it held and in
whatever order.
-/

namespace QuantClassifier.Onnx

open Wire Message

/-- The record belongs to neither kind of value that a dimension can have. -/
def isKept (r : Record) : Bool := r.number ≠ 1 && r.number ≠ 2

/-- The record of a dimension's value. -/
def valueRecord (batch : Int) : Record := .plain 1 .varint (encodeInt batch)

section Bytes

variable {batch batch' : Int} {dimension out : Bytes} {records : List Record}

theorem pinDimension_eq_ok_iff :
    pinDimension batch dimension = .ok out ↔ ∃ records, Record.readAll dimension = .ok records ∧
      Record.writeAll (valueRecord batch :: records.filter isKept) = out := by
  simp only [pinDimension, bind_eq_ok_iff, pure_eq_ok_iff]
  rfl

theorem readable_valueRecord (batch : Int) : (valueRecord batch).Readable :=
  Record.readable_plain_varint (by decide) (by omega)

theorem not_isKept_valueRecord (batch : Int) : isKept (valueRecord batch) = false := rfl

/-- The records of a pinned dimension. -/
theorem readAll_pinned (hall : Record.readAll dimension = .ok records) (batch : Int) :
    Record.readAll (Record.writeAll (valueRecord batch :: records.filter isKept)) =
      .ok (valueRecord batch :: records.filter isKept) := by
  apply Record.readAll_writeAll
  intro r hr
  rcases List.mem_cons.1 hr with rfl | hr
  · exact readable_valueRecord batch
  · exact Record.readable_of_readAll hall r (List.mem_filter.1 hr).1

/-- Whether a dimension can be pinned does not depend on the value. -/
theorem exists_pinDimension (h : pinDimension batch dimension = .ok out) (batch' : Int) :
    ∃ out', pinDimension batch' dimension = .ok out' := by
  obtain ⟨records, hall, -⟩ := pinDimension_eq_ok_iff.1 h
  exact ⟨_, pinDimension_eq_ok_iff.2 ⟨records, hall, rfl⟩⟩

/-- The second of two values stays. -/
theorem pinDimension_pinDimension (h : pinDimension batch dimension = .ok out) (batch' : Int) :
    pinDimension batch' out = pinDimension batch' dimension := by
  obtain ⟨records, hall, rfl⟩ := pinDimension_eq_ok_iff.1 h
  obtain ⟨out', hout'⟩ := exists_pinDimension h batch'
  obtain ⟨records', hall', rfl⟩ := pinDimension_eq_ok_iff.1 hout'
  cases hall.symm.trans hall'
  rw [hout', pinDimension_eq_ok_iff]
  refine ⟨_, readAll_pinned hall batch, ?_⟩
  rw [List.filter_cons_of_neg (by simp [not_isKept_valueRecord]), List.filter_filter]
  simp only [Bool.and_self]

theorem length_writeAll_filter_le (p : Record → Bool) (records : List Record) :
    (Record.writeAll (records.filter p)).length ≤ (Record.writeAll records).length := by
  induction records with
  | nil => exact Nat.le_refl _
  | cons r records ih =>
    by_cases hr : p r = true
    · rw [List.filter_cons_of_pos hr]
      simp only [Record.writeAll_cons, List.length_append]
      omega
    · rw [List.filter_cons_of_neg hr]
      simp only [Record.writeAll_cons, List.length_append]
      omega

theorem length_pinDimension_le (h : pinDimension batch dimension = .ok out) :
    out.length ≤ dimension.length + 20 := by
  obtain ⟨records, hall, rfl⟩ := pinDimension_eq_ok_iff.1 h
  have hfilter := length_writeAll_filter_le isKept records
  rw [Record.writeAll_of_readAll hall] at hfilter
  have hkey : (Key.encode ⟨1, .varint⟩).length ≤ _ := Key.length_encode_le (by decide)
  have hvalue : (encodeInt batch).length ≤ _ := Varint.length_encode_le_maxLength (by omega)
  unfold Varint.maxLength at hkey hvalue
  simp only [Record.writeAll_cons, valueRecord, Record.bytes, Record.plain, List.length_append]
  omega

end Bytes

section Decoded

variable {batch : Int} {m d : Message} {number : Nat} {v : Value}
  {enter : MessageType → Message → Bytes → Option Message} {budget : Nat} {records : List Record}
  {r : Record} {dimension out : Bytes}

theorem setDimension_eq (batch : Int) (m : Message) :
    setDimension batch m = (m.erase 2).put 1 (.int batch) := rfl

/-- A number set before leaves no trace. -/
theorem setDimension_setDimension (batch batch' : Int) (m : Message) :
    setDimension batch' (setDimension batch m) = setDimension batch' m := by
  have hno : ∀ p ∈ (m.erase 2).put 1 (.int batch), p.1 ≠ 2 := by
    intro p hp
    rcases mem_put hp with rfl | hp
    · exact Nat.ne_of_lt (Nat.lt_succ_self 1)
    · simpa using (List.mem_filter.1 hp).2
  rw [setDimension_eq, setDimension_eq, setDimension_eq, erase_eq_self hno, put_put_self]

theorem setDimension_put (hm : m.Ascending) (h₁ : number ≠ 1) (h₂ : number ≠ 2) (v : Value) :
    setDimension batch (m.put number v) = (setDimension batch m).put number v := by
  rw [setDimension_eq, setDimension_eq, erase_put_of_ne hm h₂, put_comm h₁]

theorem setDimension_erase (hm : m.Ascending) (h₁ : number ≠ 1) :
    setDimension batch (m.erase number) = (setDimension batch m).erase number := by
  rw [setDimension_eq, setDimension_eq, erase_comm, erase_put_of_ne (ascending_erase hm 2) h₁.symm]

/-- A number that a dimension is set to later does not count. -/
theorem setDimension_set_number (hm : m.Ascending) (v : Value) :
    setDimension batch (m.set 1 (.choice [2]) v) = setDimension batch m := by
  change setDimension batch ((m.erase 2).put 1 v) = _
  rw [setDimension_eq, setDimension_eq, erase_put_of_ne (ascending_erase hm 2) (by decide),
    erase_erase_self, put_put_self]

/-- Nor does a symbol. -/
theorem setDimension_set_symbol (hm : m.Ascending) (hone : m.countOf 1 ≤ 1) (v : Value) :
    setDimension batch (m.set 2 (.choice [1]) v) = setDimension batch m := by
  change setDimension batch ((m.erase 1).put 2 v) = _
  have hone' := Nat.le_trans (countOf_erase_le m 2 1) hone
  rw [setDimension_eq, setDimension_eq, erase_put_self, erase_comm,
    put_erase_self (ascending_erase hm 2) hone']

theorem absorb_value (hr : isKept r = false)
    (h : absorb enter budget .dimension m r = some d) (hm : m.Ascending) (hone : m.countOf 1 ≤ 1) :
    setDimension batch d = setDimension batch m := by
  have hnumber : r.number = 1 ∨ r.number = 2 := by
    simp only [isKept, Bool.and_eq_false_iff, decide_eq_false_iff_not, ne_eq,
      Classical.not_not] at hr
    exact hr
  unfold absorb at h
  rcases hnumber with hn | hn
  · rw [hn] at h
    change Field.decode enter ⟨1, .scalar .int64, .choice [2]⟩ r.wireType r.payload m = _ at h
    simp only [Field.decode] at h
    split at h
    · obtain ⟨v, -, rfl⟩ := Option.map_eq_some_iff.1 h
      exact setDimension_set_number hm v
    · cases h
  · rw [hn] at h
    change Field.decode enter ⟨2, .scalar .string, .choice [1]⟩ r.wireType r.payload m = _ at h
    simp only [Field.decode] at h
    split at h
    · obtain ⟨v, -, rfl⟩ := Option.map_eq_some_iff.1 h
      exact setDimension_set_symbol hm hone v
    · cases h

theorem setDimension_set_singular (hm : m.Ascending) (h₁ : number ≠ 1) (h₂ : number ≠ 2)
    (v : Value) :
    setDimension batch (m.set number .singular v) =
      (setDimension batch m).set number .singular v := by
  simp only [Message.set]
  split
  · exact setDimension_erase hm h₁
  · exact setDimension_put hm h₁ h₂ v

/-- Other fields of a dimension are single scalars. -/
theorem field?_dimension_of_isKept {f : Field} (hr : isKept r = true)
    (hf : MessageType.dimension.field? r.number = some f) :
    r.number = f.number ∧ ∃ s, f.type = .scalar s ∧ f.label = .singular := by
  have hnumber := MessageType.number_of_field? hf
  refine ⟨hnumber.symm, ?_⟩
  have hmem : f ∈ MessageType.dimension.fields := List.mem_of_find?_eq_some hf
  simp only [isKept, ← hnumber, Bool.and_eq_true, decide_eq_true_eq, ne_eq] at hr
  simp only [MessageType.fields, List.mem_cons, List.not_mem_nil, or_false] at hmem
  rcases hmem with rfl | rfl | rfl
  · exact absurd rfl hr.1
  · exact absurd rfl hr.2
  · exact ⟨_, rfl, rfl⟩

/-- A record of another field is absorbed alike before and after the dimension is set. -/
theorem absorb_kept (hr : isKept r = true)
    (h : absorb enter budget .dimension m r = some d) (hm : m.Ascending) :
    absorb enter budget .dimension (setDimension batch m) r = some (setDimension batch d) := by
  unfold absorb at h ⊢
  split at h
  · next f hf =>
    obtain ⟨hnumber, s, htype, hlabel⟩ := field?_dimension_of_isKept hr hf
    simp only [isKept, Bool.and_eq_true, decide_eq_true_eq, ne_eq, hnumber] at hr
    simp only [Field.decode, htype, hlabel] at h ⊢
    split at h
    · next hwire =>
      obtain ⟨v, hv, rfl⟩ := Option.map_eq_some_iff.1 h
      rw [if_pos hwire, hv, Option.map_some, setDimension_set_singular hm hr.1 hr.2]
    · cases h
  · split at h
    · cases h
    · next hbudget =>
      cases h
      rw [if_neg hbudget]

/-- The kept records of a dimension decode to it with its value set, if they follow a value. -/
theorem foldlM_kept (h : records.foldlM (absorb enter budget .dimension) m = some d)
    (hm : m.Ascending) (hone : m.countOf 1 ≤ 1) :
    (records.filter isKept).foldlM (absorb enter budget .dimension) (setDimension batch m) =
      some (setDimension batch d) := by
  induction records generalizing m with
  | nil =>
    cases h
    rfl
  | cons r records ih =>
    rw [List.foldlM_cons] at h
    obtain ⟨m₁, hm₁, h⟩ := Option.bind_eq_some_iff.1 h
    have ih := ih h (ascending_absorb hm hm₁) (countOf_absorb_le rfl hm hone hm₁)
    cases hr : isKept r with
    | true =>
      rw [List.filter_cons_of_pos hr, List.foldlM_cons, absorb_kept hr hm₁ hm]
      exact ih
    | false =>
      rw [List.filter_cons_of_neg (Bool.not_eq_true _ ▸ hr), ← absorb_value hr hm₁ hm hone]
      exact ih

/-- A number of 64 bits is read back. -/
theorem read?_encodeInt (hlo : -2 ^ 63 ≤ batch) (hhi : batch < 2 ^ 63) :
    Scalar.int64.read? (encodeInt batch) = some (.int batch) := by
  have hone : Scalar.int64.isOne (.int batch) = true := by
    simpa [Scalar.isOne, Scalar.holdsInt] using And.intro hlo hhi
  exact (Scalar.read?_record hone 1).2

theorem absorb_valueRecord (hlo : -2 ^ 63 ≤ batch) (hhi : batch < 2 ^ 63) (m : Message) :
    absorb enter budget .dimension m (valueRecord batch) = some (setDimension batch m) := by
  change Field.decode enter ⟨1, .scalar .int64, .choice [2]⟩ .varint (encodeInt batch) m = _
  simp only [Field.decode, Scalar.wireType, if_true, read?_encodeInt hlo hhi, Option.map_some]
  rfl

/-- A pinned dimension decodes to the dimension with its value set. -/
theorem decodeInto_pinDimension (hlo : -2 ^ 63 ≤ batch) (hhi : batch < 2 ^ 63)
    (hdec : decodeInto budget .dimension [] dimension = some d)
    (hpin : pinDimension batch dimension = .ok out) :
    decodeInto budget .dimension [] out = some (setDimension batch d) := by
  obtain ⟨records, hall, rfl⟩ := pinDimension_eq_ok_iff.1 hpin
  rw [decodeInto_eq, decodeRecords_of_readAll hall] at hdec
  rw [decodeInto_eq, decodeRecords_of_readAll (readAll_pinned hall batch), List.foldlM_cons,
    absorb_valueRecord hlo hhi]
  exact foldlM_kept hdec .nil (Nat.zero_le _)

end Decoded

end QuantClassifier.Onnx
