import QuantClassifier.Delegate
import QuantClassifier.Model.Slots
import QuantClassifier.Quantization.Tensor
import QuantClassifier.Report.Basic
import QuantClassifier.Text.Quoted

/-!
# Classifiers

A classifier is a usable model that a delegate runs. It stores real values the way the input wants
them, runs the model, and reads the output as real values again.
-/

namespace QuantClassifier

/-- What runs a model: tensors for its inputs go in, those of its outputs come out. -/
abbrev Runtime := List Tensor → Except RunError (List Tensor)

/-- A model that a delegate runs. -/
structure Classifier extends UsableModel where
  delegate : Delegate

namespace Classifier

/-- The classifier in which a delegate runs a model. The optimized delegate tells inputs by their
names. -/
def prepare (d : Delegate) (u : UsableModel) : Except Failure Classifier :=
  match d, u.model.repeatedName? with
  | .optimized, some name =>
    let f := (Failure.ofText s!"duplicate name {name}").within (.other "after graph compaction")
    .error (f.within (.other "during optimizer preflight compaction"))
  | _, _ => .ok { u with delegate := d }

@[simp] theorem prepare_unoptimized (u : UsableModel) :
    prepare .unoptimized u = .ok { u with delegate := .unoptimized } := rfl

/-- A delegate takes the model as it is. -/
theorem toUsableModel_of_prepare {d : Delegate} {u : UsableModel} {c : Classifier}
    (h : prepare d u = .ok c) : c.toUsableModel = u ∧ c.delegate = d := by
  unfold prepare at h
  split at h
  · simp at h
  · simp only [Except.ok.injEq] at h
    subst h
    exact ⟨rfl, rfl⟩

/-- Parameters as a value. -/
def paramsText (p : QuantParams) : String :=
  let scale := Decimal.text Decimal.inspected p.scale
  s!"QuantParams \x7b scale: {scale}, zero_point: {p.zeroPoint} \x7d"

/-- The name of a slot type where it is shown as a value. -/
def slotTypeText (s : SlotType) : String := s.datumType.text

/-- The input slot as a value. -/
def inputText (s : InputSlot) : String :=
  s!"InputSpec \x7b shape: {s.shape.text}, dtype: {slotTypeText s.slotType}, " ++
    s!"params: {paramsText s.params} \x7d"

/-- The output slot as a value. -/
def outputText (s : OutputSlot) : String :=
  s!"OutputSpec \x7b dtype: {slotTypeText s.slotType}, params: {paramsText s.params} \x7d"

/-- The classifier as a value. -/
def text (c : Classifier) : String :=
  s!"Classifier \x7b format: {c.format.label}, delegate: {Text.quote c.delegate.name}, " ++
    s!"input: {inputText c.input}, output: {outputText c.output} \x7d"

/-- Real values as the input stores them; they must have its shape. -/
def quantizeInput (c : Classifier) (t : Tensor) : Except Failure Tensor :=
  if t.shape = c.input.shape then t.quantize c.input.params c.input.slotType
  else .error (.ofKind (.shapeMismatch c.input.shape t.shape))

/-- The report on real values: they are stored, a runtime is given what is stored, and its first
output is read. -/
def classifyOn (c : Classifier) (run : Runtime) (t : Tensor) (elapsedMs : Double) :
    Except Failure Report := do
  let stored ← c.quantizeInput t
  match run [stored] with
  | .error e => throw (.ofText e.text)
  | .ok [] => throw (.ofText "Model produced no output")
  | .ok (raw :: _) => Report.ofTensor (← raw.dequantize c.output.params) elapsedMs

/-- The report on real values, by running the model. -/
def classify (c : Classifier) : Tensor → Double → Except Failure Report := c.classifyOn c.model.run

end Classifier

end QuantClassifier
