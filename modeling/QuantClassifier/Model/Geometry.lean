import QuantClassifier.Failure

/-!
# Image inputs

A model takes an image if its input is one image of one or three channels, whose axis comes last or
right after the batch.
-/

namespace QuantClassifier

/-- The order of the axes of an image input. -/
inductive Layout where
  /-- Batch, height, width, channels. -/
  | nhwc
  /-- Batch, channels, height, width. -/
  | nchw
  deriving DecidableEq, Repr

/-- The size of an image input. -/
structure Geometry where
  layout : Layout
  height : Nat
  width : Nat
  channels : Nat
  deriving DecidableEq, Repr

namespace Geometry

/-- An axis of this length holds channels. -/
def isChannels (n : Nat) : Bool := n = 1 || n = 3

/-- The geometry of an input shape; the channels are looked for at the end first. -/
def ofShape (shape : Shape) : Except Failure Geometry :=
  let unsupported : Except Failure Geometry :=
    .error (.ofKind (.unsupportedFormat
      s!"input shape {shape.text} is not a single image with 1 or 3 channels"))
  match shape with
  | [1, a, b, c] =>
    if isChannels c then .ok ⟨.nhwc, a, b, c⟩
    else if isChannels a then .ok ⟨.nchw, b, c, a⟩
    else unsupported
  | _ => unsupported

/-- The shape of an image input. -/
def shape (g : Geometry) : Shape :=
  match g.layout with
  | .nhwc => [1, g.height, g.width, g.channels]
  | .nchw => [1, g.channels, g.height, g.width]

theorem product_shape (g : Geometry) : g.shape.product = g.height * g.width * g.channels := by
  obtain ⟨layout, height, width, channels⟩ := g
  cases layout <;> simp [shape, Nat.mul_assoc, Nat.mul_comm channels]

end Geometry

end QuantClassifier
