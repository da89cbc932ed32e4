import QuantClassifier.Proofs.Onnx.BatchEdit
import QuantClassifier.Proofs.Wire.Frame

/-!
# The batch patch

A patch that is accepted consists of two updates in the graph (`pinBoth`) whose result decodes to
what the edit gives (`pinBatch_eq_ok_iff`). The two updates can be made in either order
(`replace?_slot_comm`), and a second patch gives what it would have given at first
(`pinBatch_pinBatch`). A buffer holds less than `2 ^ 63` bytes, and what is patched in one stays
below `2 ^ 64`, so that every length can be written.
-/

namespace QuantClassifier.Onnx

open Wire Message

/-- The two patches of an encoded model, the input's first. -/
def pinBoth (batch : Int) (bytes : Bytes) : Except PinError Bytes := do
  pinSlot batch .output (← pinSlot batch .input bytes)

section Patch

variable {batch batch' : Int} {bytes mid out : Bytes} {model : Message} {slot : Slot}

theorem pinSlot_eq_ok_iff : pinSlot batch slot bytes = .ok out ↔
    update (pinDimension batch) slot.dimensionPath bytes = .ok (some out) := by
  unfold pinSlot
  split <;> simp_all

theorem pinBoth_eq_ok_iff : pinBoth batch bytes = .ok out ↔
    ∃ mid, update (pinDimension batch) Slot.input.dimensionPath bytes = .ok (some mid) ∧
      update (pinDimension batch) Slot.output.dimensionPath mid = .ok (some out) := by
  simp only [pinBoth, bind_eq_ok_iff, pinSlot_eq_ok_iff]

/-- What a patch of a model is checked against. -/
def accept (expected : Message) (patched : Bytes) : Except PinError Bytes :=
  match decode? .model patched with
  | none => .error .undecodable
  | some actual => if actual.agrees expected then .ok patched else .error .unexpected

theorem accept_eq_ok_iff {expected : Message} : accept expected bytes = .ok out ↔
    ∃ actual, decode? .model bytes = some actual ∧ actual.agrees expected = true ∧ bytes = out := by
  unfold accept
  cases decode? .model bytes with
  | none => simp
  | some actual => by_cases h : actual.agrees expected = true <;> simp [h]

theorem accept_congr {expected expected' : Message} (h : expected.agrees expected' = true)
    (bytes : Bytes) : accept expected bytes = accept expected' bytes := by
  unfold accept
  split
  · rfl
  · rw [agrees_congr h]

/-- A model is patched if it decodes and lacks nothing. -/
theorem pinBatch_eq (hdec : decode? .model bytes = some model) :
    pinBatch batch bytes =
      match missing? model with
      | some e => .error (.missing e)
      | none => pinBoth batch bytes >>= accept (setBoth batch model) := by
  unfold pinBatch
  simp only [hdec, setBatch_eq]
  cases missing? model with
  | some e => rfl
  | none =>
    simp only [mapError_ok, pinBoth, bind_assoc]
    simp only [bind, Except.bind]
    cases pinSlot batch .input bytes with
    | error e => rfl
    | ok mid =>
      simp only
      cases pinSlot batch .output mid with
      | error e => rfl
      | ok out =>
        simp only [accept]
        cases decode? .model out with
        | none => rfl
        | some actual =>
          simp only
          split <;> rfl

theorem pinBatch_eq_ok_iff : pinBatch batch bytes = .ok out ↔
    ∃ model actual, decode? .model bytes = some model ∧ missing? model = none ∧
      pinBoth batch bytes = .ok out ∧ decode? .model out = some actual ∧
      actual.agrees (setBoth batch model) = true := by
  cases hdec : decode? .model bytes with
  | none =>
    unfold pinBatch
    rw [hdec]
    simp [throw, throwThe, MonadExceptOf.throw]
  | some model =>
    rw [pinBatch_eq hdec]
    cases hmissing : missing? model with
    | some e => simp [hmissing]
    | none =>
      simp only [bind_eq_ok_iff, accept_eq_ok_iff, Option.some.injEq, exists_and_left]
      constructor
      · rintro ⟨patched, hpin, actual, hactual, hagrees, rfl⟩
        exact ⟨model, rfl, hmissing, hpin, actual, hactual, hagrees⟩
      · rintro ⟨model', rfl, -, hpin, actual, hactual, hagrees⟩
        exact ⟨out, hpin, actual, hactual, hagrees, rfl⟩

/-- A patch that decodes to the edited model is accepted, unless the model has a NaN. -/
theorem pinBatch_of_pinBoth (hdec : decode? .model bytes = some model)
    (hnan : model.nanFree = true) (hmissing : missing? model = none)
    (hpin : pinBoth batch bytes = .ok out)
    (hout : decode? .model out = some (setBoth batch model)) : pinBatch batch bytes = .ok out := by
  have hself := agrees_iff_matched.1 (agrees_self hnan)
  exact pinBatch_eq_ok_iff.2 ⟨model, _, hdec, hmissing, hpin, hout,
    agrees_iff_matched.2 (hself.setBoth batch)⟩

theorem pinBatch_of_missing? {e : Missing} (batch : Int) (hdec : decode? .model bytes = some model)
    (hmissing : missing? model = some e) : pinBatch batch bytes = .error (.missing e) := by
  rw [pinBatch_eq hdec, hmissing]

end Patch

/-! ## Patching again -/

section Again

variable {batch batch' : Int} {bytes mid out out' new : Bytes} {slot other : Slot}

/-- A patch makes a model at most this much longer. -/
theorem length_le_of_pin (h : update (pinDimension batch) slot.dimensionPath bytes = .ok (some out))
    (hlen : bytes.length + 140 < 2 ^ 64) : out.length ≤ bytes.length + 140 := by
  obtain ⟨old, new, hold, hnew, hrep⟩ := update_eq_ok_some_iff.1 h
  have hgain := length_pinDimension_le hnew
  exact length_replace?_le hold hgain hrep hlen

theorem select?_of_replace?_slot (hne : slot.field ≠ other.field)
    (h : replace? new slot.dimensionPath bytes = some out) (hlen : out.length < 2 ^ 64) :
    select? other.dimensionPath out = select? other.dimensionPath bytes := by
  rw [Slot.dimensionPath_eq] at h ⊢
  exact select?_replace?_of_diverging hne h hlen

theorem replace?_slot_comm {new' : Bytes} (hne : slot.field ≠ other.field)
    (h : replace? new slot.dimensionPath bytes = some mid) (hlen : mid.length < 2 ^ 64)
    (h' : replace? new' other.dimensionPath mid = some out) :
    ∃ mid', replace? new' other.dimensionPath bytes = some mid' ∧
      (mid'.length < 2 ^ 64 → replace? new slot.dimensionPath mid' = some out) := by
  rw [Slot.dimensionPath_eq] at h h' ⊢
  exact replace?_comm hne h hlen h'

/-- What a patch does: it writes two new dimensions in place of two that the model has, and the
first write does not change the second dimension. -/
theorem writes_of_pinBoth (h : pinBoth batch bytes = .ok out) (hlen : bytes.length < 2 ^ 63) :
    ∃ oldIn newIn oldOut newOut mid,
      select? Slot.input.dimensionPath bytes = some oldIn ∧
      select? Slot.output.dimensionPath bytes = some oldOut ∧
      pinDimension batch oldIn = .ok newIn ∧ pinDimension batch oldOut = .ok newOut ∧
      replace? newIn Slot.input.dimensionPath bytes = some mid ∧
      replace? newOut Slot.output.dimensionPath mid = some out ∧
      mid.length ≤ bytes.length + 140 ∧ out.length ≤ bytes.length + 280 := by
  obtain ⟨mid, hin, hout⟩ := pinBoth_eq_ok_iff.1 h
  have hmidLen := length_le_of_pin hin (by omega)
  have houtLen := length_le_of_pin hout (by omega)
  obtain ⟨oldIn, newIn, holdIn, hnewIn, hrepIn⟩ := update_eq_ok_some_iff.1 hin
  obtain ⟨oldOut, newOut, holdOut, hnewOut, hrepOut⟩ := update_eq_ok_some_iff.1 hout
  rw [select?_of_replace?_slot Slot.field_input_ne_output hrepIn (by omega)] at holdOut
  exact ⟨oldIn, newIn, oldOut, newOut, mid, holdIn, holdOut, hnewIn, hnewOut, hrepIn, hrepOut,
    hmidLen, by omega⟩

/-- A patch succeeds if the model has two dimensions that can be pinned. -/
theorem exists_pinBoth {oldIn newIn oldOut newOut : Bytes} (hlen : bytes.length + 140 < 2 ^ 64)
    (hin : select? Slot.input.dimensionPath bytes = some oldIn)
    (hout : select? Slot.output.dimensionPath bytes = some oldOut)
    (hnewIn : pinDimension batch oldIn = .ok newIn)
    (hnewOut : pinDimension batch oldOut = .ok newOut) :
    ∃ mid out, pinBoth batch bytes = .ok out ∧
      replace? newIn Slot.input.dimensionPath bytes = some mid ∧
      replace? newOut Slot.output.dimensionPath mid = some out ∧
      mid.length ≤ bytes.length + 140 := by
  obtain ⟨mid, hmid⟩ := exists_replace? hin newIn
  have hpinIn := update_eq_ok_some_iff.2 ⟨oldIn, newIn, hin, hnewIn, hmid⟩
  have hmidLen := length_le_of_pin hpinIn hlen
  rw [← select?_of_replace?_slot Slot.field_input_ne_output hmid (by omega)] at hout
  obtain ⟨out, hrepOut⟩ := exists_replace? hout newOut
  have hpinOut := update_eq_ok_some_iff.2 ⟨oldOut, newOut, hout, hnewOut, hrepOut⟩
  exact ⟨mid, out, pinBoth_eq_ok_iff.2 ⟨mid, hpinIn, hpinOut⟩, hmid, hrepOut, hmidLen⟩

/-- The result of a patch is patched like the model it came from: the second patch of either
dimension takes the place of the first one, and writes to different dimensions can change places. -/
theorem pinBoth_pinBoth (h : pinBoth batch bytes = .ok out) (hlen : bytes.length < 2 ^ 63)
    (batch' : Int) :
    ∃ out', pinBoth batch' bytes = .ok out' ∧ pinBoth batch' out = .ok out' := by
  obtain ⟨oldIn, newIn, oldOut, newOut, mid, holdIn, holdOut, hnewIn, hnewOut, hrepIn, hrepOut,
    hmidLen, houtLen⟩ := writes_of_pinBoth h hlen
  obtain ⟨newIn', hnewIn'⟩ := exists_pinDimension hnewIn batch'
  obtain ⟨newOut', hnewOut'⟩ := exists_pinDimension hnewOut batch'
  have hagainIn := (pinDimension_pinDimension hnewIn batch').trans hnewIn'
  have hagainOut := (pinDimension_pinDimension hnewOut batch').trans hnewOut'
  have hselIn : select? Slot.input.dimensionPath out = some newIn := by
    rw [select?_of_replace?_slot Slot.field_input_ne_output.symm hrepOut (by omega)]
    exact select?_replace? hrepIn (by omega)
  have hselOut := select?_replace? hrepOut (show out.length < 2 ^ 64 by omega)
  obtain ⟨mid', out', hpin', hmid', hout', hmidLen'⟩ :=
    exists_pinBoth (by omega) holdIn holdOut hnewIn' hnewOut'
  obtain ⟨mid'', out'', hpin'', hmid'', hout'', hmidLen''⟩ :=
    exists_pinBoth (by omega) hselIn hselOut hagainIn hagainOut
  obtain ⟨between, hbetween, hturn⟩ := replace?_slot_comm Slot.field_input_ne_output.symm hrepOut
    (by omega) hmid''
  rw [replace?_replace? hrepIn (by omega), hmid'] at hbetween
  cases hbetween
  rw [replace?_replace? (hturn (by omega)) (by omega), hout'] at hout''
  cases hout''
  exact ⟨out', hpin', hpin''⟩

/-- A pinned model is pinned again like the model it came from. -/
theorem pinBatch_pinBatch (h : pinBatch batch bytes = .ok out) (hlen : bytes.length < 2 ^ 63)
    (batch' : Int) : pinBatch batch' out = pinBatch batch' bytes := by
  obtain ⟨model, actual, hdec, hmissing, hpin, hactual, hagrees⟩ := pinBatch_eq_ok_iff.1 h
  obtain ⟨hmissing', hagrees'⟩ := agrees_setBoth_of_agrees_setBoth hagrees batch'
  obtain ⟨out', hfirst, hsecond⟩ := pinBoth_pinBoth hpin hlen batch'
  rw [pinBatch_eq hactual, pinBatch_eq hdec, hmissing', hmissing, hfirst, hsecond]
  exact accept_congr hagrees' out'

end Again

/-! ## A model to patch -/

/-- A model that no encoder writes. Around the graph stands a field that no schema knows, and
another one between the output and the input, which come in this order. The key and the length of
the graph are padded, and the input's dimension has a denotation, a symbol and a number. -/
def looseModel : Bytes :=
  [0xA0, 0x06, 0x07, 0xBA, 0x00, 0xA5, 0x00,
    0x62, 0x08, 0x12, 0x06, 0x0A, 0x04, 0x12, 0x02, 0x0A, 0x00,
    0x88, 0x01, 0x05,
    0x5A, 0x16, 0x12, 0x11, 0x0A, 0x0F, 0x12, 0x0B, 0x0A, 0x09,
    0x1A, 0x01, 0x64, 0x12, 0x01, 0x4E, 0x08, 0x81, 0x00,
    0x08, 0x01, 0x0A, 0x01, 0x78,
    0x08, 0x08]

/-- The same model with a batch size of four. -/
def pinnedLooseModel : Bytes :=
  [0xA0, 0x06, 0x07, 0x3A, 0x23,
    0x62, 0x0A, 0x12, 0x08, 0x0A, 0x06, 0x12, 0x04, 0x0A, 0x02, 0x08, 0x04,
    0x88, 0x01, 0x05,
    0x5A, 0x12, 0x12, 0x0D, 0x0A, 0x0B, 0x12, 0x07, 0x0A, 0x05,
    0x08, 0x04, 0x1A, 0x01, 0x64,
    0x08, 0x01, 0x0A, 0x01, 0x78,
    0x08, 0x08]

theorem pinBatch_looseModel : pinBatch (4 : Int64).toInt looseModel = .ok pinnedLooseModel :=
  toOption_eq_some_iff.1 (by decide +kernel)

end QuantClassifier.Onnx
