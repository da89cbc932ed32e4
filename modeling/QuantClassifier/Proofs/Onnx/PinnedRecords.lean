import QuantClassifier.Proofs.Onnx.EditOutcome
import QuantClassifier.Proofs.Onnx.PinnedDimension
import QuantClassifier.Proofs.Wire.Normalizing

/-!
# What pinning does to the bytes of a dimension

A dimension can be pinned exactly if its bytes split into records. The pinned one begins with a
record of the new value, and the records of all fields but those of a value follow it as they were,
whatever mix of values, symbols and fields that no schema knows they stood in
(`pinDimension_records`).
-/

namespace QuantClassifier.Onnx

open Wire

section Pinned

variable {batch : Int64} {dimension out : Bytes} {d : Message}

theorem pinDimension_eq_error_iff {e : Wire.Error} :
    pinDimension batch.toInt dimension = .error e ↔ Record.readAll dimension = .error e := by
  unfold pinDimension
  cases Record.readAll dimension <;> simp [bind, Except.bind, pure, Except.pure]

/-- The payload of a value's record spells the 64 bits of the number. -/
theorem exists_spells_valueRecord (batch : Int64) :
    ∃ n, Varint.Spells (valueRecord batch.toInt).payload n ∧ Int64.ofNat n = batch := by
  have hholds : Scalar.int64.holdsInt batch.toInt = true := by
    simpa [Scalar.holdsInt] using And.intro batch.le_toInt batch.toInt_lt
  refine ⟨(batch.toInt % 0x10000000000000000).toNat, Varint.spells_encode (by omega), ?_⟩
  have hback := Scalar.ofVarint_of_holdsInt hholds
  rw [Scalar.ofVarint_int64] at hback
  rw [← Int64.toInt_inj, Int64.toInt_ofNat']
  exact hback

/-- A pinned dimension keeps the texts of its other fields. -/
theorem PinnedTo.bytesOf {batch : Int} {d d' : Message} {number : Nat} (h : PinnedTo batch d d')
    (h₁ : 1 ≠ number) (h₂ : 2 ≠ number) : d'.bytesOf number = d.bytesOf number := by
  have hget := congrArg (fun m => Message.get? m number) h.others
  simp only [Message.get?_erase_of_ne h₁, Message.get?_erase_of_ne h₂] at hget
  rw [Message.bytesOf, Message.bytesOf, hget]

/-- A pinned dimension decodes if the dimension does, and then to the same but for the value. -/
theorem exists_decode?_pinDimension (hdec : decode? .dimension dimension = some d)
    (hpin : pinDimension batch.toInt dimension = .ok out) :
    ∃ d', decode? .dimension out = some d' ∧ PinnedTo batch.toInt d d' :=
  ⟨_, decodeInto_pinDimension batch.le_toInt batch.toInt_lt hdec hpin,
    pinnedTo_setDimension batch.toInt d⟩

/-- A dimension is pinned unless its bytes do not split into records, which is then the error. The
pinned one has one record of the new value, and behind it the records of the dimension that belong
to no value, with their bytes and in their order. It decodes if the dimension does, and then to the
same but for the value; and the next value that is pinned takes the place of this one. -/
theorem pinDimension_records (batch : Int64) (dimension : Bytes) :
    (∀ e, pinDimension batch.toInt dimension = .error e ↔ Record.readAll dimension = .error e) ∧
    ∀ records, Record.readAll dimension = .ok records → ∃ out value,
      pinDimension batch.toInt dimension = .ok out ∧
      Record.readAll out = .ok (value :: records.filter fun r => r.number ≠ 1 ∧ r.number ≠ 2) ∧
      (value.number = 1 ∧ value.wireType = .varint ∧
        ∃ n, Varint.Spells value.payload n ∧ Int64.ofNat n = batch) ∧
      (∀ d, decode? .dimension dimension = some d →
        ∃ d', decode? .dimension out = some d' ∧ PinnedTo batch.toInt d d' ∧
          d'.bytesOf 3 = d.bytesOf 3) ∧
      ∀ batch' : Int64, pinDimension batch'.toInt out = pinDimension batch'.toInt dimension := by
  refine ⟨fun _ => pinDimension_eq_error_iff, fun records hall => ?_⟩
  have hkept : (fun r : Record => decide (r.number ≠ 1 ∧ r.number ≠ 2)) = isKept := by
    funext r
    exact Bool.decide_and ..
  have hpin : pinDimension batch.toInt dimension = .ok _ :=
    pinDimension_eq_ok_iff.2 ⟨records, hall, rfl⟩
  refine ⟨_, valueRecord batch.toInt, hpin, ?_, ⟨rfl, rfl, exists_spells_valueRecord batch⟩, ?_, ?_⟩
  · rw [hkept]
    exact readAll_pinned hall batch.toInt
  · intro d hdec
    obtain ⟨d', hdec', hpinned⟩ := exists_decode?_pinDimension hdec hpin
    exact ⟨d', hdec', hpinned, hpinned.bytesOf (by decide) (by decide)⟩
  · intro batch'
    exact pinDimension_pinDimension hpin batch'.toInt

/-- A dimension with a number, a symbol, a denotation whose length is padded, a field that no schema
knows, and a second number behind a padded key. -/
def crowdedDimension : Bytes :=
  [0x08, 0x05, 0x12, 0x01, 0x4E, 0x1A, 0x81, 0x00, 0x44, 0x25, 0x01, 0x02, 0x03, 0x04,
    0x88, 0x00, 0x07]

/-- A negative number takes the place of both numbers and the symbol; the padded denotation and the
unknown field stay as they were. -/
theorem pinDimension_records_crowdedDimension :
    ∃ records out value d d', Record.readAll crowdedDimension = .ok records ∧
      pinDimension (-2 : Int64).toInt crowdedDimension = .ok out ∧
      Record.readAll out = .ok [value, ⟨3, .lengthDelimited, [0x1A, 0x81, 0x00], [0x44]⟩,
        ⟨4, .thirtyTwoBit, [0x25], [0x01, 0x02, 0x03, 0x04]⟩] ∧
      value.number = 1 ∧ decode? .dimension crowdedDimension = some d ∧
      decode? .dimension out = some d' ∧ PinnedTo (-2 : Int64).toInt d d' ∧
      d'.bytesOf 3 = [0x44] := by
  have hread : (Record.readAll crowdedDimension).toOption = some
      [⟨1, .varint, [0x08], [0x05]⟩, ⟨2, .lengthDelimited, [0x12, 0x01], [0x4E]⟩,
        ⟨3, .lengthDelimited, [0x1A, 0x81, 0x00], [0x44]⟩,
        ⟨4, .thirtyTwoBit, [0x25], [0x01, 0x02, 0x03, 0x04]⟩,
        ⟨1, .varint, [0x88, 0x00], [0x07]⟩] := by decide +kernel
  have hall := toOption_eq_some_iff.1 hread
  have hany : (decode? .dimension crowdedDimension).any (·.bytesOf 3 = [0x44]) = true := by
    decide +kernel
  obtain ⟨d, hdec, hdenotation⟩ := (Option.any_eq_true ..).1 hany
  obtain ⟨out, value, hpin, hout, ⟨hnumber, -⟩, hdecodes, -⟩ :=
    (pinDimension_records (-2) crowdedDimension).2 _ hall
  obtain ⟨d', hdec', hpinned, hkept⟩ := hdecodes d hdec
  exact ⟨_, out, value, d, d', hall, hpin, hout, hnumber, hdec, hdec', hpinned,
    hkept.trans (of_decide_eq_true hdenotation)⟩

end Pinned

end QuantClassifier.Onnx
