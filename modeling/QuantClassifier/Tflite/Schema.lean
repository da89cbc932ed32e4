import QuantClassifier.Flat.Table

/-!
# The TFLite tables

The types of tables in a model file and their fields, by slot.
-/

namespace QuantClassifier.Tflite

/-- The types of tables that are read. -/
inductive TableType where
  | model
  | operatorCode
  | subgraph
  | tensor
  | quantization
  | customQuantization
  | sparsity
  | sparseAxis
  | words
  | halves
  | bytes
  | variant
  | operator
  | buffer
  | metadata
  | signature
  | namedTensor
  deriving DecidableEq, Repr

open Flat.Kind in
/-- The fields of a type of table. Of operators only what connects them is read. -/
def schema : Flat.Schema TableType
  | .model => [scalar 4, tables .operatorCode, tables .subgraph, text, tables .buffer, scalars 4,
      tables .metadata, tables .signature]
  | .operatorCode => [scalar 1, text, scalar 4, scalar 4]
  | .subgraph => [tables .tensor, scalars 4, scalars 4, tables .operator, text]
  | .tensor => [scalars 4, scalar 1, scalar 4, text, table .quantization, scalar 1,
      table .sparsity, scalars 4, scalar 1, tables .variant]
  | .quantization => [scalars 4, scalars 4, scalars 4, scalars 8, scalar 1,
      choice [(1, .customQuantization)], scalar 4]
  | .customQuantization => [scalars 1]
  | .sparsity => [scalars 4, scalars 4, tables .sparseAxis]
  | .sparseAxis => [scalar 1, scalar 4, scalar 1,
      choice [(1, .words), (2, .halves), (3, .bytes)], scalar 1,
      choice [(1, .words), (2, .halves), (3, .bytes)]]
  | .words => [scalars 4]
  | .halves => [scalars 2]
  | .bytes => [scalars 1]
  | .variant => [scalars 4, scalar 1, scalar 1]
  | .operator => [scalar 4, scalars 4, scalars 4]
  | .buffer => [scalars 1]
  | .metadata => [text, scalar 4]
  | .signature => [tables .namedTensor, tables .namedTensor, text, skipped, scalar 4]
  | .namedTensor => [text, scalar 4]

end QuantClassifier.Tflite
