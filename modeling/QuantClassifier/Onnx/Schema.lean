/-!
# The ONNX message types

Each message type is a list of fields: a number, the type of its values, and how many values it may
hold. The codec reads this table and has no case for any single message type.
-/

namespace QuantClassifier.Onnx

/-- Types of values that are no messages. Enumerations are stored as `int32`. -/
inductive Scalar where
  | int32
  | int64
  | uint64
  | float
  | double
  | string
  | bytes
  deriving DecidableEq, Repr

/-- The message types of a model file. -/
inductive MessageType where
  | model
  | graph
  | node
  | nodeAttribute
  | valueInfo
  | typeInfo
  | tensorType
  | shape
  | dimension
  | tensor
  | segment
  | sparseTensor
  | stringPair
  | operatorSet
  | annotatedTensor
  | trainingInfo
  | function
  deriving DecidableEq, Repr

/-- The type of a field's values. -/
inductive FieldType where
  | scalar (s : Scalar)
  | message (t : MessageType)
  deriving DecidableEq, Repr

/-- How many values a field holds. A `singular` scalar is absent when it holds the default of its
type, an `optional` one is present once it was set, a `choice` unsets the listed fields when it is
set, and a `repeated` field holds any number. A single message is always optional. -/
inductive Label where
  | singular
  | optional
  | choice (others : List Nat)
  | repeated
  deriving DecidableEq, Repr

/-- A field of a message type. -/
structure Field where
  number : Nat
  type : FieldType
  label : Label
  deriving DecidableEq, Repr

namespace Field

/-- A scalar that is absent when it holds its default. -/
def one (number : Nat) (s : Scalar) : Field := ⟨number, .scalar s, .singular⟩

/-- A scalar whose presence is kept. -/
def maybe (number : Nat) (s : Scalar) : Field := ⟨number, .scalar s, .optional⟩

/-- Any number of scalars. -/
def many (number : Nat) (s : Scalar) : Field := ⟨number, .scalar s, .repeated⟩

/-- A message. -/
def child (number : Nat) (t : MessageType) : Field := ⟨number, .message t, .optional⟩

/-- Any number of messages. -/
def children (number : Nat) (t : MessageType) : Field := ⟨number, .message t, .repeated⟩

end Field

namespace MessageType

open Onnx.Field

/-- The fields of a message type, by ascending number. -/
def fields : MessageType → List Field
  | model => [one 1 .int64, one 2 .string, one 3 .string, one 4 .string, one 5 .int64,
      one 6 .string, child 7 .graph, children 8 .operatorSet, children 14 .stringPair,
      children 20 .trainingInfo, children 25 .function]
  | graph => [children 1 .node, one 2 .string, children 5 .tensor, one 10 .string,
      children 11 .valueInfo, children 12 .valueInfo, children 13 .valueInfo,
      children 14 .annotatedTensor, children 15 .sparseTensor]
  | node => [many 1 .string, many 2 .string, one 3 .string, one 4 .string,
      children 5 .nodeAttribute, one 6 .string, one 7 .string]
  | nodeAttribute => [one 1 .string, one 2 .float, one 3 .int64, one 4 .bytes, child 5 .tensor,
      child 6 .graph, many 7 .float, many 8 .int64, many 9 .bytes, children 10 .tensor,
      children 11 .graph, one 13 .string, children 15 .typeInfo, one 20 .int32, one 21 .string,
      child 22 .sparseTensor, children 23 .sparseTensor]
  | valueInfo => [one 1 .string, child 2 .typeInfo, one 3 .string]
  | typeInfo => [child 1 .tensorType, one 6 .string]
  | tensorType => [one 1 .int32, child 2 .shape]
  | shape => [children 1 .dimension]
  | dimension => [⟨1, .scalar .int64, .choice [2]⟩, ⟨2, .scalar .string, .choice [1]⟩,
      one 3 .string]
  | tensor => [many 1 .int64, one 2 .int32, child 3 .segment, many 4 .float, many 5 .int32,
      many 6 .bytes, many 7 .int64, one 8 .string, one 9 .bytes, many 10 .double, many 11 .uint64,
      one 12 .string, children 13 .stringPair, maybe 14 .int32]
  | segment => [one 1 .int64, one 2 .int64]
  | sparseTensor => [child 1 .tensor, child 2 .tensor, many 3 .int64]
  | stringPair => [one 1 .string, one 2 .string]
  | operatorSet => [one 1 .string, one 2 .int64]
  | annotatedTensor => [maybe 1 .string, children 2 .stringPair]
  | trainingInfo => [child 1 .graph, child 2 .graph, children 3 .stringPair, children 4 .stringPair]
  | function => [maybe 1 .string, many 4 .string, many 5 .string, many 6 .string, children 7 .node,
      maybe 8 .string, children 9 .operatorSet, maybe 10 .string]

/-- The field with a number. -/
def field? (t : MessageType) (number : Nat) : Option Field :=
  t.fields.find? (·.number = number)

/-- Fields are listed in the order in which they are written. -/
theorem fields_pairwise_lt (t : MessageType) : (t.fields.map Field.number).Pairwise (· < ·) := by
  cases t <;> decide

end MessageType

end QuantClassifier.Onnx
