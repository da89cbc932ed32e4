import QuantClassifier.Proofs.Onnx.Encoding
import QuantClassifier.Proofs.Onnx.PlainPatch

/-!
# Patches of canonical encodings

On what `encode` writes, a patch gives byte for byte what encoding the edited model gives
(`pinSlot_encode`). A pinned dimension is the encoding of the dimension with its value set, since a
dimension's value stands in front of its other fields, and enclosing lengths come out alike because
both sides write the shortest form.
-/

namespace QuantClassifier.Onnx

open Wire Message

section Canonical

variable {batch : Int} {budget : Nat} {d model dimension : Message} {slot : Slot}

theorem fieldRecords_kept (d : Message) :
    (fieldRecords d).filter isKept = fieldRecords ((d.erase 2).erase 1) := by
  rw [fieldRecords_erase, fieldRecords_erase, List.filter_filter]
  rfl

/-- A dimension that is set begins with its value. -/
theorem setDimension_eq_cons (hasc : d.Ascending) (hone : d.countOf 1 ≤ 1) (hpos : ∀ p ∈ d, 0 < p.1)
    (batch : Int) : setDimension batch d = (1, .int batch) :: (d.erase 2).erase 1 := by
  have hone' := Nat.le_trans (countOf_erase_le d 2 1) hone
  rw [setDimension_eq, ← put_erase_self (ascending_erase hasc 2) hone']
  apply put_eq_cons
  intro p hp
  have hne : p.1 ≠ 1 := by simpa using (List.mem_filter.1 hp).2
  have := hpos p (mem_of_mem_erase (mem_of_mem_erase hp))
  omega

/-- Pinning the encoding of a dimension is encoding the dimension with its value set. -/
theorem pinDimension_encode (h : RoundTrips budget .dimension d) (hlen : (encode d).length < 2 ^ 64)
    (batch : Int) : pinDimension batch (encode d) = .ok (encode (setDimension batch d)) := by
  have hpos : ∀ p ∈ d, 0 < p.1 := fun p hp => (h.isFieldNumber hlen p hp).1
  rw [pinDimension_eq_ok_iff]
  refine ⟨fieldRecords d, h.readAll_encode hlen, ?_⟩
  rw [setDimension_eq_cons (h.ascending hlen) (h.countOf_le_one hlen rfl) hpos, encode,
    fieldRecords_cons, fieldRecords_kept]
  rfl

theorem roundTrips_iff (slot : Slot) : decode? .model (encode model) = some model ↔
    RoundTrips (94 + slot.dimensionPath.length) .model model := by
  rw [decode?_model_eq slot]
  rfl

/-- Patching an encoding at one slot is encoding the edit. -/
theorem pinSlot_encode (hround : decode? .model (encode model) = some model)
    (hlen : (encode model).length < 2 ^ 64)
    (hdimension : model.childAt? slot.dimensionPath = some dimension) (batch : Int) :
    update (pinDimension batch) slot.dimensionPath (encode model) =
      .ok (some (encode (model.modifyAt slot.dimensionPath (setDimension batch)))) := by
  have hround := (roundTrips_iff slot).1 hround
  have ht := childTypeAt?_dimensionPath slot
  obtain ⟨hsel, hround', hle⟩ := hround.select?_encode hlen ht hdimension
  have hpin := pinDimension_encode hround' (by omega) batch
  have hrep := hround.replace?_encode hlen ht hdimension (setDimension batch)
  exact update_eq_ok_some_iff.2 ⟨_, _, hsel, hpin, hrep⟩

/-- The model that a patch of an encoding decodes to is encoded by the patch. -/
theorem pinSlot_roundTrips (hlo : -2 ^ 63 ≤ batch) (hhi : batch < 2 ^ 63)
    (hround : decode? .model (encode model) = some model) (hmissing : missing? model = none)
    (hlen : (encode model).length + 140 < 2 ^ 64) (slot : Slot) :
    let edited := model.modifyAt slot.dimensionPath (setDimension batch)
    update (pinDimension batch) slot.dimensionPath (encode model) = .ok (some (encode edited)) ∧
      decode? .model (encode edited) = some edited := by
  have hplain := ((roundTrips_iff slot).1 hround).plainAlong (by omega)
    (childTypeAt?_dimensionPath slot)
  obtain ⟨dimension, hdimension⟩ := exists_dimension hround hplain hmissing
  have hpin := pinSlot_encode hround (by omega) hdimension batch
  obtain ⟨out, hout, hdec⟩ := pinSlot_of_plain hlo hhi hround hplain hmissing hlen
  cases hpin.symm.trans hout
  exact ⟨hpin, hdec⟩

/-- On the encoding of a model, patching is encoding the edited model. It succeeds if the edit does,
with the same bytes, and otherwise fails as the edit fails. -/
theorem pinBatch_encode {batch : Int64} (hround : decode? .model (encode model) = some model)
    (hnan : model.nanFree = true) (hlen : (encode model).length < 2 ^ 63) :
    (∀ edited, setBatch batch.toInt model = .ok edited →
      pinBatch batch.toInt (encode model) = .ok (encode edited)) ∧
    (∀ e, setBatch batch.toInt model = .error e →
      pinBatch batch.toInt (encode model) = .error (.missing e)) := by
  constructor
  · intro edited hedit
    obtain ⟨hmissing, rfl⟩ := setBatch_eq_ok_iff.1 hedit
    have hlo := batch.le_toInt
    have hhi := batch.toInt_lt
    obtain ⟨hin, hround'⟩ := pinSlot_roundTrips hlo hhi hround hmissing (by omega) .input
    have hlen' := length_le_of_pin hin (by omega)
    have hmissing' := (missing?_modifyAt batch.toInt model .input).trans hmissing
    obtain ⟨hout, hround''⟩ := pinSlot_roundTrips hlo hhi hround' hmissing' (by omega) .output
    have hboth := pinBoth_eq_ok_iff.2 ⟨_, hin, hout⟩
    exact pinBatch_of_pinBoth hround hnan hmissing hboth hround''
  · intro e hedit
    exact pinBatch_of_missing? _ hround ((setBatch_eq_error_iff _).1 hedit)

/-- The encoding of a model whose input has a symbolic dimension with a denotation, and whose output
has an empty one. -/
def canonicalModel : Bytes :=
  [0x08, 0x08, 0x3A, 0x1F,
    0x5A, 0x13, 0x0A, 0x01, 0x78, 0x12, 0x0E, 0x0A, 0x0C, 0x08, 0x01, 0x12, 0x08, 0x0A, 0x06,
    0x12, 0x01, 0x4E, 0x1A, 0x01, 0x64,
    0x62, 0x08, 0x12, 0x06, 0x0A, 0x04, 0x12, 0x02, 0x0A, 0x00]

/-- A negative batch size takes ten bytes in both dimensions. -/
theorem pinBatch_encode_canonicalModel :
    ∃ model edited, encode model = canonicalModel ∧ decode? .model (encode model) = some model ∧
      model.nanFree = true ∧ (encode model).length < 2 ^ 63 ∧
      setBatch (-1 : Int64).toInt model = .ok edited ∧
      pinBatch (-1 : Int64).toInt (encode model) = .ok (encode edited) := by
  have hany : (decode? .model canonicalModel).any (fun model => encode model = canonicalModel &&
      model.nanFree && (missing? model).isNone) = true := by decide +kernel
  obtain ⟨model, hdec, hmodel⟩ := (Option.any_eq_true ..).1 hany
  simp only [Bool.and_eq_true, decide_eq_true_eq, Option.isNone_iff_eq_none] at hmodel
  obtain ⟨⟨hencode, hnan⟩, hmissing⟩ := hmodel
  have hround : decode? .model (encode model) = some model := by rw [hencode, hdec]
  have hlen : (encode model).length < 2 ^ 63 := by
    rw [hencode]
    decide
  have hedit : setBatch (-1 : Int64).toInt model = .ok (setBoth (-1 : Int64).toInt model) :=
    setBatch_eq_ok_iff.2 ⟨hmissing, rfl⟩
  exact ⟨model, _, hencode, hround, hnan, hlen, hedit,
    (pinBatch_encode hround hnan hlen).1 _ hedit⟩

end Canonical

end QuantClassifier.Onnx
