import QuantClassifier.Onnx.PinFailure
import QuantClassifier.Proofs.Onnx.PlainPatch
import QuantClassifier.Proofs.Wire.LawfulUpdate

/-!
# Messages that are split over several records

The decoder merges a single message that is split over several records, but an update of the bytes
enters the first of them only. So a patch may miss a dimension that the model has, and then reports
a missing shape; it does so of no model that has its shapes unless a message on the way is split
(`pinBatch_missingShape`).
-/

namespace QuantClassifier.Onnx

open Wire Message

/-- On a path through a message of a type, some field that is not repeated has several records. -/
def SplitAlong : (path : List Nat) → MessageType → Bytes → Prop
  | [], _, _ => False
  | number :: path, t, msg => ∃ records, Record.readAll msg = .ok records ∧
      ((t.isRepeated number = false ∧ 1 < records.countP (·.number = number)) ∨
        ∃ step child, records.find? (Record.isStep number) = some step ∧
          t.childType? number = some child ∧ SplitAlong path child step.payload)

/-- The model has no graph, or the graph has at one end no value, or one without a shape that has
dimensions. -/
def Shapeless (model : Message) : Prop :=
  model.child? 7 = none ∨ ∃ graph slot, model.child? 7 = some graph ∧
    ∀ value, graph.child? (Slot.field slot) = some value → rank? value = none ∨ rank? value = some 0

section Walk

variable {path : List Nat} {budget number : Nat} {t child : MessageType} {m sub : Message}
  {msg : Bytes} {v : Value}

/-- Where a message has a field of messages that the walk enters and does not come to the end of,
the field is split, or the walk stops short in the first message. -/
theorem split_or_step (hchild : t.childType? number = some child)
    (h : decodeInto (budget + 1) t [] msg = some m) (hv : m.get? number = some v)
    (hshort : StopsShort (number :: path) msg) :
    ∃ records, Record.readAll msg = .ok records ∧
      ((t.isRepeated number = false ∧ 1 < records.countP (·.number = number)) ∨
        ∃ step sub, records.find? (Record.isStep number) = some step ∧
          m.child? number = some sub ∧ decodeInto budget child [] step.payload = some sub ∧
          StopsShort path step.payload) := by
  obtain ⟨records, hall, hshort⟩ := stopsShort_cons.1 hshort
  refine ⟨records, hall, ?_⟩
  by_cases hsplit : t.isRepeated number = false ∧ 1 < records.countP (·.number = number)
  · exact Or.inl hsplit
  · have hone : t.isRepeated number = false → records.countP (·.number = number) ≤ 1 :=
      fun hsingle => Nat.le_of_not_lt fun hlt => hsplit ⟨hsingle, hlt⟩
    rw [decodeInto_eq, decodeRecords_of_readAll hall] at h
    rcases step_of_foldlM hchild hone h with ⟨-, hnone⟩ | ⟨step, sub, hstep, henter, hsub, -⟩
    · rw [hnone] at hv
      cases hv
    · rcases hshort with hnone | ⟨step', hstep', hshort⟩
      · rw [hnone] at hstep
        cases hstep
      · cases hstep.symm.trans hstep'
        exact Or.inr ⟨step, sub, hstep, hsub, henter, hshort⟩

/-- A walk that stops short of a value which the decoded message has comes through a message that is
split. -/
theorem splitAlong_of_stopsShort (ht : t.childTypeAt? (path ++ [number]) = some child)
    (h : decodeInto (budget + path.length + 1) t [] msg = some m)
    (hsub : m.childAt? path = some sub) (hv : sub.get? number = some v)
    (hshort : StopsShort (path ++ [number]) msg) : SplitAlong (path ++ [number]) t msg := by
  induction path generalizing t msg m with
  | nil =>
    cases hsub
    obtain ⟨u, hchild, -⟩ := Option.bind_eq_some_iff.1 ht
    obtain ⟨records, hall, hsplit | ⟨step, sub', -, -, -, hend⟩⟩ := split_or_step hchild h hv hshort
    · exact ⟨records, hall, Or.inl hsplit⟩
    · exact absurd hend not_stopsShort_nil
  | cons k path ih =>
    obtain ⟨u, hchild, ht⟩ := Option.bind_eq_some_iff.1 ht
    obtain ⟨sub₁, hsub₁, hsub⟩ := Option.bind_eq_some_iff.1 hsub
    obtain ⟨records, hall, hsplit | ⟨step, sub₂, hstep, hsub₂, henter, hnext⟩⟩ :=
      split_or_step hchild h (child?_eq_some_iff.1 hsub₁) hshort
    · exact ⟨records, hall, Or.inl hsplit⟩
    · cases hsub₁.symm.trans hsub₂
      exact ⟨records, hall, Or.inr ⟨step, u, hstep, hchild, ih ht henter hsub hnext⟩⟩

end Walk

section Patch

variable {batch : Int} {model : Message} {bytes out : Bytes} {slot : Slot} {what : Missing}

/-- A dimension that the model has is only missed where a message is split. -/
theorem splitAlong_of_missing? (hdec : decode? .model bytes = some model)
    (hmissing : missing? model = none) (hshort : StopsShort slot.dimensionPath bytes) :
    SplitAlong slot.dimensionPath .model bytes := by
  obtain ⟨graph, hgraph, hmissing⟩ := missingAt?_of_missing? hmissing slot
  obtain ⟨shape, hshape, hne⟩ := exists_shape_of_missingAt? hmissing
  obtain ⟨v, hv⟩ := exists_get?_of_children hne
  have hsplit : slot.dimensionPath = [7, slot.field, 2, 1, 2] ++ [1] := rfl
  have hat : model.childAt? [7, slot.field, 2, 1, 2] = some shape :=
    (childAt?_cons hgraph _).trans hshape
  have ht := childTypeAt?_dimensionPath slot
  rw [decode?_model_eq slot] at hdec
  -- The shape has a first dimension, so the walk would come to the end of the path if every message
  -- on the way were whole in its first record.
  rw [hsplit] at ht hshort ⊢
  exact splitAlong_of_stopsShort ht hdec hat hv hshort

theorem pinSlot_eq_missing_iff : pinSlot batch slot bytes = .error (.missing what) ↔
    what = .dimension slot ∧ StopsShort slot.dimensionPath bytes := by
  have hnone : update (pinDimension batch) slot.dimensionPath bytes = .ok none ↔
      StopsShort slot.dimensionPath bytes := update_eq_ok_none_iff
  rw [← hnone]
  unfold pinSlot
  split <;> next hupdate => simp [hupdate, eq_comm (a := what)]

/-- What the two patches find missing is a dimension of the encoding. -/
theorem stopsShort_of_pinBoth (hlen : bytes.length < 2 ^ 63)
    (h : pinBoth batch bytes = .error (.missing what)) :
    ∃ slot, what = .dimension slot ∧ StopsShort slot.dimensionPath bytes := by
  unfold pinBoth at h
  cases hin : pinSlot batch .input bytes with
  | error e =>
    rw [hin] at h
    cases h
    exact ⟨.input, pinSlot_eq_missing_iff.1 hin⟩
  | ok mid =>
    rw [hin] at h
    obtain ⟨hwhat, hshort⟩ := pinSlot_eq_missing_iff.1 (show pinSlot batch .output mid = _ from h)
    refine ⟨.output, hwhat, ?_⟩
    have hupdate := pinSlot_eq_ok_iff.1 hin
    have hmidLen := length_le_of_pin hupdate (by omega)
    obtain ⟨old, new, -, -, hrep⟩ := update_eq_ok_some_iff.1 hupdate
    rw [Slot.dimensionPath_eq] at hrep hshort ⊢
    exact (stopsShort_replace?_of_diverging Slot.field_input_ne_output hrep (by omega)).1 hshort

theorem accept_ne_missing (expected : Message) (out : Bytes) (what : Missing) :
    accept expected out ≠ .error (.missing what) := by
  unfold accept
  split
  · simp
  · split <;> simp

/-- What is found missing of a model that decodes is missing in the model, or missed in a message
that is split. -/
theorem missing_of_pinBatch (hdec : decode? .model bytes = some model)
    (hlen : bytes.length < 2 ^ 63) (h : pinBatch batch bytes = .error (.missing what)) :
    missing? model = some what ∨
      ∃ slot, what = .dimension slot ∧ SplitAlong slot.dimensionPath .model bytes := by
  rw [pinBatch_eq hdec] at h
  cases hmissing : missing? model with
  | some e =>
    rw [hmissing] at h
    cases h
    exact Or.inl rfl
  | none =>
    rw [hmissing] at h
    cases hboth : pinBoth batch bytes with
    | ok out =>
      rw [hboth] at h
      exact absurd h (accept_ne_missing _ out what)
    | error e =>
      rw [hboth] at h
      cases h
      obtain ⟨slot, hwhat, hshort⟩ := stopsShort_of_pinBoth hlen hboth
      exact Or.inr ⟨slot, hwhat, splitAlong_of_missing? hdec hmissing hshort⟩

theorem rank?_of_missingAt? {graph : Message} (h : missingAt? graph slot = some what) :
    ∀ value, graph.child? slot.field = some value → rank? value = none ∨ rank? value = some 0 := by
  intro value hvalue
  simp only [missingAt?, hvalue] at h
  rcases hrank : rank? value with _ | _ | rank
  · exact Or.inl rfl
  · exact Or.inr rfl
  · rw [hrank] at h
    cases h

/-- What a model lacks is a graph, a value, or a shape with dimensions. -/
theorem shapeless_of_missing? (h : missing? model = some what) : Shapeless model := by
  unfold missing? at h
  split at h
  · next hnone => exact Or.inl hnone
  · next graph hgraph =>
    rcases Option.or_eq_some_iff.1 h with hin | ⟨-, hout⟩
    · exact Or.inr ⟨graph, .input, hgraph, rank?_of_missingAt? hin⟩
    · exact Or.inr ⟨graph, .output, hgraph, rank?_of_missingAt? hout⟩

/-- Of all failures of a patch, only what is missing has the kind of a missing shape. -/
theorem missing_of_kind? {e : PinError} {text : String}
    (h : e.failure.kind? = some (.missingShape text)) : ∃ what, e = .missing what := by
  cases e with
  | missing what => exact ⟨what, rfl⟩
  | _ => cases h

/-- A patch reports a missing shape only of a model that lacks a shape, as the edit of the model
does, or where a message on the way to a dimension is split over several records. -/
theorem pinBatch_missingShape {batch : Int64} {e : PinError} {text : String}
    (hdec : decode? .model bytes = some model) (hlen : bytes.length < 2 ^ 63)
    (h : pinBatch batch.toInt bytes = .error e)
    (hkind : e.failure.kind? = some (.missingShape text)) :
    (∃ what, e = .missing what ∧ setBatch batch.toInt model = .error what ∧ Shapeless model) ∨
      ∃ slot, e = .missing (.dimension slot) ∧ SplitAlong slot.dimensionPath .model bytes := by
  obtain ⟨what, rfl⟩ := missing_of_kind? hkind
  rcases missing_of_pinBatch hdec hlen h with hmissing | ⟨slot, rfl, hsplit⟩
  · exact Or.inl ⟨what, rfl, (setBatch_eq_error_iff batch.toInt).2 hmissing,
      shapeless_of_missing? hmissing⟩
  · exact Or.inr ⟨slot, rfl, hsplit⟩

/-- A model whose input and output are scalars. -/
def scalarModel : Bytes :=
  [0x3A, 0x10,
    0x5A, 0x06, 0x12, 0x04, 0x0A, 0x02, 0x12, 0x00,
    0x62, 0x06, 0x12, 0x04, 0x0A, 0x02, 0x12, 0x00]

theorem pinBatch_missingShape_scalarModel :
    ∃ model e text, decode? .model scalarModel = some model ∧ scalarModel.length < 2 ^ 63 ∧
      pinBatch (4 : Int64).toInt scalarModel = .error e ∧
      e.failure.kind? = some (.missingShape text) ∧
      ((∃ what, e = .missing what ∧ setBatch (4 : Int64).toInt model = .error what ∧
          Shapeless model) ∨
        ∃ slot, e = .missing (.dimension slot) ∧
          SplitAlong slot.dimensionPath .model scalarModel) := by
  have hany : (decode? .model scalarModel).any
      (fun model => missing? model = some (.shape .input [])) = true := by decide +kernel
  obtain ⟨model, hdec, hmissing⟩ := (Option.any_eq_true ..).1 hany
  have hlen : scalarModel.length < 2 ^ 63 := by decide
  have hpin := pinBatch_of_missing? (4 : Int64).toInt hdec (of_decide_eq_true hmissing)
  exact ⟨model, _, _, hdec, hlen, hpin, rfl, pinBatch_missingShape hdec hlen hpin rfl⟩

/-- A model in two records for its graph. The first one holds the graph's name, the second one an
input and an output with one dimension each. -/
def splitModel : Bytes :=
  [0x3A, 0x03, 0x12, 0x01, 0x67,
    0x3A, 0x14,
    0x5A, 0x08, 0x12, 0x06, 0x0A, 0x04, 0x12, 0x02, 0x0A, 0x00,
    0x62, 0x08, 0x12, 0x06, 0x0A, 0x04, 0x12, 0x02, 0x0A, 0x00]

/-- The decoded model lacks nothing, but the walk in the bytes stops short in the first record. -/
theorem pinBatch_splitModel :
    ∃ model edited e, decode? .model splitModel = some model ∧
      setBatch (4 : Int64).toInt model = .ok edited ∧
      pinBatch (4 : Int64).toInt splitModel = .error e ∧
      e.failure.kind? = some (.missingShape "first input has no dimension") := by
  have hany : (decode? .model splitModel).any (fun model => missing? model = none) = true := by
    decide +kernel
  obtain ⟨model, hdec, hmissing⟩ := (Option.any_eq_true ..).1 hany
  have hmissing : missing? model = none := of_decide_eq_true hmissing
  have hupdate : update (pinDimension 4) Slot.input.dimensionPath splitModel = .ok none :=
    toOption_eq_some_iff.1 (by decide +kernel)
  have hslot : pinSlot 4 .input splitModel = .error (.missing (.dimension .input)) :=
    pinSlot_eq_missing_iff.2 ⟨rfl, update_eq_ok_none_iff.1 hupdate⟩
  have hpin : pinBatch (4 : Int64).toInt splitModel = .error (.missing (.dimension .input)) := by
    rw [pinBatch_eq hdec, hmissing]
    change pinBoth 4 splitModel >>= _ = _
    rw [pinBoth, hslot]
    rfl
  exact ⟨model, _, _, hdec, setBatch_eq_ok_iff.2 ⟨hmissing, rfl⟩, hpin, rfl⟩

end Patch

end QuantClassifier.Onnx
