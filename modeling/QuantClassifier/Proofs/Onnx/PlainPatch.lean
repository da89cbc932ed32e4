import QuantClassifier.Proofs.Onnx.BatchPatch

/-!
# Patches of plain encodings

Where no message on the way to a dimension is split over several records or holds a group, patching
the bytes is editing the model: what the patch gives decodes to the edited model
(`pinBoth_of_plain`), and a patch fails only for what the model lacks. The order of fields, unknown
fields, the spelling of numbers and what a dimension held play no part.
-/

namespace QuantClassifier.Onnx

open Wire Message

section Plain

variable {path rest stem : List Nat} {t child : MessageType} {msg out old new : Bytes}
  {number other : Nat}

/-- The message at the end of a plain path has no group either. -/
theorem groupFree_of_select? (ht : t.childTypeAt? path = some child) (h : PlainAlong path t msg)
    (hold : select? path msg = some old) : GroupFree old := by
  induction path generalizing t msg with
  | nil =>
    cases hold
    exact h
  | cons number path ih =>
    obtain ⟨u, hchild, ht⟩ := Option.bind_eq_some_iff.1 ht
    obtain ⟨records, step, hall, hstep, hold⟩ := select?_cons_eq_some_iff.1 hold
    exact ih ht ((h.2 records hall).2 step u hstep hchild) hold

/-- How often a number occurs does not change where a payload is replaced. -/
theorem countP_number_replaceFirst (number other : Nat) (inner : Bytes) (records : List Record) :
    (replaceFirst (Record.isStep number) (.delimited number inner) records).countP
        (·.number = other) = records.countP (·.number = other) := by
  have hmap : ∀ rs : List Record,
      rs.countP (·.number = other) = (rs.map Record.number).countP (· = other) := by
    intro rs
    rw [List.countP_map]
    rfl
  rw [hmap, hmap, map_replaceFirst]
  intro r hr
  exact (Record.isStep_iff.1 hr).1.symm

/-- A write on one path leaves another path that leaves it plain. -/
theorem plainAlong_replace? (hne : number ≠ other)
    (h : PlainAlong (stem ++ other :: rest) t msg)
    (hrep : replace? new (stem ++ number :: path) msg = some out) (hlen : out.length < 2 ^ 64) :
    PlainAlong (stem ++ other :: rest) t out := by
  induction stem generalizing t msg out with
  | nil =>
    obtain ⟨records, step, inner, hall, hstep, -, rfl⟩ := replace?_cons_eq_some_iff.1 hrep
    have hle := length_le_of_replaceFirst hstep inner
    have hall' := readAll_replaceFirst hall hstep (show inner.length < 2 ^ 64 by omega)
    obtain ⟨hone, hnext⟩ := h.2 records hall
    refine ⟨groupFree_of_readAll hall', ?_⟩
    intro records' hrecords'
    cases hall'.symm.trans hrecords'
    rw [countP_number_replaceFirst, find?_replaceFirst_of_disjoint (Record.not_isStep_of_ne hne)
      (Record.not_isStep_of_ne hne _ (Record.isStep_delimited number inner))]
    exact ⟨hone, hnext⟩
  | cons k stem ih =>
    obtain ⟨records, step, inner, hall, hstep, hinner, rfl⟩ := replace?_cons_eq_some_iff.1 hrep
    have hle := length_le_of_replaceFirst hstep inner
    have hall' := readAll_replaceFirst hall hstep (show inner.length < 2 ^ 64 by omega)
    obtain ⟨hone, hnext⟩ := h.2 records hall
    refine ⟨groupFree_of_readAll hall', ?_⟩
    intro records' hrecords'
    cases hall'.symm.trans hrecords'
    rw [countP_number_replaceFirst]
    refine ⟨hone, ?_⟩
    intro step' u hstep' hchild
    cases (find?_replaceFirst_self (Record.isStep_delimited k inner) hstep).symm.trans hstep'
    have hinnerLen : inner.length < 2 ^ 64 := by omega
    exact ih (hnext step u hstep hchild) hinner hinnerLen

end Plain

section Model

variable {batch : Int} {bytes out : Bytes} {model graph : Message} {slot other : Slot}

theorem missing?_ne_dimension (model : Message) (slot : Slot) :
    missing? model ≠ some (.dimension slot) := by
  have hat : ∀ graph other, missingAt? graph other ≠ some (.dimension slot) := by
    intro graph other
    unfold missingAt?
    split
    · simp
    · split <;> simp
  unfold missing?
  cases model.child? 7 with
  | none => simp
  | some graph =>
    simp only
    cases hin : missingAt? graph .input with
    | none => exact hat graph .output
    | some e =>
      have he := hat graph .input
      rwa [hin] at he

/-- A graph that lacks nothing has a shape with a dimension. -/
theorem exists_shape_of_missingAt? (h : missingAt? graph slot = none) :
    ∃ shape, graph.childAt? [slot.field, 2, 1, 2] = some shape ∧ shape.children 1 ≠ [] := by
  unfold missingAt? at h
  split at h
  · cases h
  · next value hvalue =>
    split at h
    · next rank hrank =>
      simp only [rank?, Option.bind_eq_bind, Option.bind_eq_some_iff, Option.pure_def,
        Option.some.injEq] at hrank
      obtain ⟨type, htype, tensor, htensor, shape, hshape, hrank⟩ := hrank
      refine ⟨shape, ?_, ?_⟩
      · rw [childAt?_cons hvalue, childAt?_cons htype, childAt?_cons htensor, childAt?_cons hshape]
        rfl
      · intro hempty
        rw [hempty] at hrank
        cases hrank
    · cases h

theorem missingAt?_of_missing? (h : missing? model = none) (slot : Slot) :
    ∃ graph, model.child? 7 = some graph ∧ missingAt? graph slot = none := by
  unfold missing? at h
  split at h
  · cases h
  · next graph hgraph =>
    rw [Option.or_eq_none_iff] at h
    cases slot with
    | input => exact ⟨graph, hgraph, h.1⟩
    | output => exact ⟨graph, hgraph, h.2⟩

theorem exists_get?_of_children {m : Message} {number : Nat} (h : m.children number ≠ []) :
    ∃ v, m.get? number = some v := by
  rw [← Option.isSome_iff_exists, ← Option.ne_none_iff_isSome]
  intro hnone
  apply h
  have hfilter : m.filter (·.1 = number) = [] := by
    rw [List.filter_eq_nil_iff]
    intro p hp
    simpa using get?_eq_none_iff.1 hnone p hp
  rw [children, hfilter, List.filterMap_nil]

theorem decode?_model_eq (slot : Slot) (bytes : Bytes) :
    decode? .model bytes = decodeInto (94 + slot.dimensionPath.length) .model [] bytes := by
  cases slot <;> rfl

theorem childTypeAt?_dimensionPath (slot : Slot) :
    MessageType.model.childTypeAt? slot.dimensionPath = some .dimension := by
  cases slot <;> rfl

/-- A model that lacks nothing has a dimension at the end of each plain path. -/
theorem exists_dimension (hdec : decode? .model bytes = some model)
    (hplain : PlainAlong slot.dimensionPath .model bytes) (hmissing : missing? model = none) :
    ∃ dimension, model.childAt? slot.dimensionPath = some dimension := by
  obtain ⟨graph, hgraph, hmissing⟩ := missingAt?_of_missing? hmissing slot
  obtain ⟨shape, hshape, hne⟩ := exists_shape_of_missingAt? hmissing
  obtain ⟨v, hv⟩ := exists_get?_of_children hne
  have hsplit : slot.dimensionPath = [7, slot.field, 2, 1, 2] ++ [1] := rfl
  have hat : model.childAt? [7, slot.field, 2, 1, 2] = some shape :=
    (childAt?_cons hgraph _).trans hshape
  have ht := childTypeAt?_dimensionPath slot
  rw [hsplit] at ht hplain
  rw [decode?_model_eq slot] at hdec
  obtain ⟨dimension, hdimension⟩ := child?_of_get?_childAt? ht hplain hdec hat hv
  refine ⟨dimension, ?_⟩
  rw [hsplit, childAt?_append, hat]
  exact childAt?_cons hdimension []

/-- Patching a plain encoding at one slot is editing the model there. -/
theorem pinSlot_of_plain (hlo : -2 ^ 63 ≤ batch) (hhi : batch < 2 ^ 63)
    (hdec : decode? .model bytes = some model)
    (hplain : PlainAlong slot.dimensionPath .model bytes) (hmissing : missing? model = none)
    (hlen : bytes.length + 140 < 2 ^ 64) :
    ∃ out, update (pinDimension batch) slot.dimensionPath bytes = .ok (some out) ∧
      decode? .model out = some (model.modifyAt slot.dimensionPath (setDimension batch)) := by
  obtain ⟨dimension, hdimension⟩ := exists_dimension hdec hplain hmissing
  have ht := childTypeAt?_dimensionPath slot
  rw [decode?_model_eq slot] at hdec
  obtain ⟨old, hold, holdDec⟩ := select?_of_childAt? ht hplain hdec hdimension
  obtain ⟨records, hall, -⟩ := foldlM_of_decodeInto (groupFree_of_select? ht hplain hold) holdDec
  obtain ⟨new, hnew⟩ : ∃ new, pinDimension batch old = .ok new :=
    ⟨_, pinDimension_eq_ok_iff.2 ⟨records, hall, rfl⟩⟩
  obtain ⟨out, hout⟩ := exists_replace? hold new
  have hupdate := update_eq_ok_some_iff.2 ⟨old, new, hold, hnew, hout⟩
  have houtLen := length_le_of_pin hupdate hlen
  have hnewDec := decodeInto_pinDimension hlo hhi holdDec hnew
  refine ⟨out, hupdate, ?_⟩
  rw [decode?_model_eq slot, decodeInto_replace? ht hplain hdec hnewDec hout (by omega)]
  exact congrArg some (modifyAt_congr hdimension rfl)

/-- Patching a plain encoding is editing the model. -/
theorem pinBoth_of_plain (hlo : -2 ^ 63 ≤ batch) (hhi : batch < 2 ^ 63)
    (hdec : decode? .model bytes = some model)
    (hplain : ∀ slot : Slot, PlainAlong slot.dimensionPath .model bytes)
    (hmissing : missing? model = none) (hlen : bytes.length < 2 ^ 63) :
    ∃ out, pinBoth batch bytes = .ok out ∧ decode? .model out = some (setBoth batch model) := by
  obtain ⟨mid, hmid, hmidDec⟩ :=
    pinSlot_of_plain hlo hhi hdec (hplain .input) hmissing (by omega)
  have hmidLen := length_le_of_pin hmid (by omega)
  obtain ⟨old, new, hold, hnew, hrep⟩ := update_eq_ok_some_iff.1 hmid
  have hplain' : PlainAlong Slot.output.dimensionPath .model mid := by
    have hout := hplain .output
    rw [Slot.dimensionPath_eq] at hrep hout ⊢
    exact plainAlong_replace? Slot.field_input_ne_output hout hrep (by omega)
  obtain ⟨out, hout, houtDec⟩ := pinSlot_of_plain hlo hhi hmidDec hplain'
    ((missing?_modifyAt batch model .input).trans hmissing) (by omega)
  exact ⟨out, pinBoth_eq_ok_iff.2 ⟨mid, hmid, hout⟩, houtDec⟩

/-- The patch of an encoding agrees with the edit of the model, if the encoding is plain on the way
to both dimensions and the model has no NaN. The patch succeeds exactly if the edit does, and gives
an encoding of the edited model; it fails as the edit fails. So it never finds that a first value
has no dimension, and never gives a model that is not the expected one. -/
theorem pinBatch_of_plain {batch : Int64} (hdec : decode? .model bytes = some model)
    (hnan : model.nanFree = true)
    (hplain : ∀ slot : Slot, PlainAlong slot.dimensionPath .model bytes)
    (hlen : bytes.length < 2 ^ 63) :
    ((∃ out, pinBatch batch.toInt bytes = .ok out) ↔
      ∃ edited, setBatch batch.toInt model = .ok edited) ∧
    (∀ out, pinBatch batch.toInt bytes = .ok out →
      ∃ edited, setBatch batch.toInt model = .ok edited ∧ decode? .model out = some edited) ∧
    (∀ e, setBatch batch.toInt model = .error e →
      pinBatch batch.toInt bytes = .error (.missing e)) ∧
    (∀ slot, pinBatch batch.toInt bytes ≠ .error (.missing (.dimension slot))) ∧
    pinBatch batch.toInt bytes ≠ .error .unexpected := by
  cases hmissing : missing? model with
  | some e =>
    have hpin := pinBatch_of_missing? batch.toInt hdec hmissing
    have hedit := (setBatch_eq_error_iff batch.toInt).2 hmissing
    rw [hpin, hedit]
    refine ⟨by simp, by simp, ?_, ?_, by simp⟩
    · intro e' he'
      cases he'
      rfl
    · intro slot he'
      cases he'
      exact missing?_ne_dimension model slot hmissing
  | none =>
    obtain ⟨out, hboth, hout⟩ :=
      pinBoth_of_plain batch.le_toInt batch.toInt_lt hdec hplain hmissing hlen
    have hpin := pinBatch_of_pinBoth hdec hnan hmissing hboth hout
    have hedit : setBatch batch.toInt model = .ok (setBoth batch.toInt model) :=
      setBatch_eq_ok_iff.2 ⟨hmissing, rfl⟩
    rw [hpin, hedit]
    refine ⟨by simp, ?_, by simp, by simp, by simp⟩
    intro out' hout'
    cases hout'
    exact ⟨_, rfl, hout⟩

theorem pinBatch_of_plain_looseModel :
    ∃ model, decode? .model looseModel = some model ∧ model.nanFree = true ∧
      (∀ slot : Slot, PlainAlong slot.dimensionPath .model looseModel) ∧
      looseModel.length < 2 ^ 63 ∧
      pinBatch (4 : Int64).toInt looseModel = .ok pinnedLooseModel ∧
      ∃ edited, setBatch (4 : Int64).toInt model = .ok edited ∧
        decode? .model pinnedLooseModel = some edited := by
  have hany : (decode? .model looseModel).any Message.nanFree = true := by decide +kernel
  obtain ⟨model, hdec, hnan⟩ := Option.any_eq_true .. |>.1 hany
  have hplain : ∀ slot : Slot, PlainAlong slot.dimensionPath .model looseModel := by
    intro slot
    cases slot <;> decide +kernel
  have hlen : looseModel.length < 2 ^ 63 := by decide
  obtain ⟨-, hagree, -⟩ := pinBatch_of_plain hdec hnan hplain hlen
  exact ⟨model, hdec, hnan, hplain, hlen, pinBatch_looseModel, hagree _ pinBatch_looseModel⟩

end Model

end QuantClassifier.Onnx
