import QuantClassifier.Proofs.Wire.Selection

/-!
# What an update leaves as it was

The records of a message are `SameBut` some steps if only the first delimited records with the
numbers of the steps may have become others, and those only in what they hold. An update changes the
messages on its path in this way (`sameBut_of_update`), and changes of this kind compose
(`SameBut.trans`).
-/

namespace QuantClassifier.Wire

/-- The number and the wire type of a record. -/
def Record.label (r : Record) : Nat × WireType := (r.number, r.wireType)

/-- There are as many records as before, with the same labels in the same order, and a record that
is not the first one to be entered by a step has the same bytes. -/
structure SameBut (steps : Nat → Prop) (records records' : List Record) : Prop where
  labels : records'.map Record.label = records.map Record.label
  others : ∀ i, (∀ number, steps number → records.findIdx? (Record.isStep number) ≠ some i) →
    records'[i]? = records[i]?

section SameBut

variable {steps : Nat → Prop} {number : Nat} {records records' records'' : List Record}
  {step : Record}

/-- Where a step enters a message is told from the labels. -/
theorem findIdx?_isStep_congr (h : records'.map Record.label = records.map Record.label)
    (number : Nat) :
    records'.findIdx? (Record.isStep number) = records.findIdx? (Record.isStep number) := by
  have hmap : ∀ rs : List Record, rs.findIdx? (Record.isStep number) =
      (rs.map Record.label).findIdx? fun l => l.1 = number && l.2 = .lengthDelimited := by
    intro rs
    rw [List.findIdx?_map]
    rfl
  rw [hmap, hmap, h]

theorem SameBut.trans (h : SameBut steps records records') (h' : SameBut steps records' records'') :
    SameBut steps records records'' where
  labels := h'.labels.trans h.labels
  others := by
    intro i hi
    rw [h'.others i, h.others i hi]
    intro number hnumber
    rw [findIdx?_isStep_congr h.labels]
    exact hi number hnumber

/-- What stands in for the record that a step enters leaves all others as they were. -/
theorem sameBut_replaceFirst (hnumber : steps number) (inner : Bytes) (records : List Record) :
    SameBut steps records
      (replaceFirst (Record.isStep number) (.delimited number inner) records) where
  labels := by
    apply map_replaceFirst
    intro r hr
    obtain ⟨hn, hw⟩ := Record.isStep_iff.1 hr
    simp only [Record.label, Record.delimited, hn, hw]
  others := fun _ hi => getElem?_replaceFirst_of_ne (hi number hnumber)

end SameBut

/-- An update leaves all records as they were but the one that it enters. -/
theorem sameBut_of_update {ε : Type} {leaf : Bytes → Except ε Bytes} {number : Nat}
    {path : List Nat} {msg out : Bytes} {steps : Nat → Prop} (hnumber : steps number)
    (h : update leaf (number :: path) msg = .ok (some out)) (hlen : out.length < 2 ^ 64) :
    ∃ records records', Record.readAll msg = .ok records ∧ Record.readAll out = .ok records' ∧
      SameBut steps records records' := by
  obtain ⟨records, step, inner, hall, hstep, -, rfl⟩ := update_cons_eq_ok_some_iff.1 h
  have hle := length_le_of_replaceFirst hstep inner
  exact ⟨records, _, hall, readAll_replaceFirst hall hstep (by omega),
    sameBut_replaceFirst hnumber inner records⟩

end QuantClassifier.Wire
