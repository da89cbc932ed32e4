import QuantClassifier.Tensor.Summary

/-!
# Models

A model has inputs, which have names and of which the types and the shapes are known, and outputs.
Each output passes on an input or is a constant, so running a model is to check the given tensors
and to hand out the outputs.
-/

namespace QuantClassifier

/-- The length of an axis, or a name for a length that is not known. -/
inductive Dimension where
  | fixed (n : Nat)
  | symbol (name : String)
  deriving DecidableEq

namespace Dimension

/-- The length, where it is known. -/
def fixed? : Dimension → Option Nat
  | fixed n => some n
  | symbol _ => none

/-- The length or its name. -/
def text : Dimension → String
  | fixed n => toString n
  | symbol name => name

/-- An axis of some length goes where the dimension is expected. -/
def admits : Dimension → Nat → Bool
  | fixed n, m => n = m
  | symbol _, _ => true

end Dimension

/-- What is known of a tensor before it is there. -/
structure Fact where
  dtype : DatumType
  shape : List Dimension
  deriving DecidableEq

namespace Fact

/-- The axes as messages show them. -/
def axes (f : Fact) : String := axesText (f.shape.map Dimension.text)

/-- The shape, if all of its dimensions are known. -/
def concrete? (f : Fact) : Option Shape := f.shape.mapM Dimension.fixed?

/-- The wording of a fact. -/
def text (f : Fact) : String := s!"{f.axes},{f.dtype.text}"

/-- A tensor has the type and the shape. -/
def admits (f : Fact) (t : Tensor) : Bool :=
  f.dtype.agrees t.dtype && f.shape.length = t.shape.length &&
    (f.shape.zip t.shape).all fun (d, n) => d.admits n

end Fact

/-- An input of a model. A value that its file gives does not bind the tensors that it takes. -/
structure ModelInput where
  name : String
  fact : Fact
  initial : Option Tensor

/-- What is known of an input, as messages show it. -/
def ModelInput.text (i : ModelInput) : String :=
  match i.initial with
  | none => i.fact.text
  | some t =>
    let repeated := match t.uniform? with
      | some x => s!" ◻️{x.summary}"
      | none => ""
    s!"{i.fact.text}🟰 {t.summary}{repeated}"

/-- An output of a model with some number of inputs. -/
inductive Output (inputs : Nat) where
  | input (i : Fin inputs)
  | constant (t : Tensor)

/-- Inputs and outputs. -/
structure Model where
  inputs : List ModelInput
  outputs : List (Output inputs.length)

/-- Why tensors can not be given to a model. -/
inductive RunError where
  | inputCount (expected got : Nat)
  | inputMismatch (index : Nat) (expected : ModelInput) (got : Tensor)

/-- The wording of a refusal. -/
def RunError.text : RunError → String
  | inputCount expected got =>
    s!"Wrong number of inputs for model. Expected {expected} got {got}"
  | inputMismatch index expected got =>
    s!"Input at index {index} has incorrect dtype or shape (got {got.summary}, " ++
      s!"expected to match fact {expected.text})"

namespace Model

/-- The type of the elements of an output. -/
def outputType (m : Model) : Output m.inputs.length → DatumType
  | .input i => (m.inputs.get i).fact.dtype
  | .constant t => t.dtype

/-- The first name that an earlier input has too. -/
def repeatedName? (m : Model) : Option String :=
  let names := m.inputs.map ModelInput.name
  (names.zipIdx.find? fun (name, i) => name ∈ names.take i).map (·.1)

/-- Checks tensors against inputs, counting the inputs from `index` on. -/
def checkInputs (index : Nat) : List ModelInput → List Tensor → Except RunError Unit
  | i :: is, t :: ts =>
    if i.fact.admits t then checkInputs (index + 1) is ts else .error (.inputMismatch index i t)
  | _, _ => .ok ()

/-- The outputs for some tensors, one for each input. -/
def run (m : Model) (values : List Tensor) : Except RunError (List Tensor) :=
  if h : values.length = m.inputs.length then do
    checkInputs 0 m.inputs values
    return m.outputs.map fun
      | .input i => values.get (i.cast h.symm)
      | .constant t => t
  else .error (.inputCount m.inputs.length values.length)

end Model

end QuantClassifier
