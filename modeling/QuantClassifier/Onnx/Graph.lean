import QuantClassifier.Onnx.Decode
import QuantClassifier.Onnx.Description

/-!
# ONNX models

The graph of a model file as a model. A graph names its values: inputs, constants and what nodes
pass on under another name. Names are resolved after all values are there, the last value of a name
counts. What the graph says of the values on the way from an input to an output is joined, and
afterwards every input must be known in full.
-/

namespace QuantClassifier.Onnx

open Wire (Bytes)

/-- Where a value comes from. -/
inductive Origin where
  | input
  | constant (t : Tensor)
  /-- The value of another name is passed on. -/
  | passedOn (source : Bytes)
  /-- Any other operation. -/
  | computed

/-- A part of a graph that yields values of some names. -/
structure Producer where
  name : String
  origin : Origin
  values : List Bytes
  /-- The names of the values that it takes. -/
  takes : List Bytes
  description : Description

namespace Producer

/-- An input. -/
def ofInput (name : Bytes) (description : Description) : Option Producer := do
  return { name := ← Text.decodeUtf8? name, origin := .input, values := [name], takes := [],
           description }

/-- A constant. -/
def ofConstant (name : Bytes) (t : Tensor) : Option Producer := do
  return { name := ← Text.decodeUtf8? name, origin := .constant t, values := [name], takes := [],
           description := .unknown }

/-- The type of the nodes that pass a value on. -/
def identityType : Bytes := Text.encodeUtf8 "Identity"

/-- What a node does, if it takes and yields some values. -/
def originOf (type : Bytes) (takes values : List Bytes) : Origin :=
  match takes, values with
  | [source], [_] => if type = identityType then .passedOn source else .computed
  | _, _ => .computed

/-- The node that comes after some number of producers. A node without a name is called like its
first value, or else after its place and its type. Values without names do not count. -/
def ofNode (place : Nat) (node : Message) : Option Producer := do
  let type ← Text.decodeUtf8? (node.bytesOf 4)
  let takes := (node.textsOf 1).filter fun name => !name.isEmpty
  let values := (node.textsOf 2).filter fun name => !name.isEmpty
  let first ← Text.decodeUtf8? ((node.textsOf 2).headD [])
  let given ← Text.decodeUtf8? (node.bytesOf 3)
  let name :=
    if !given.isEmpty then given else if !first.isEmpty then first else s!"{place}-{type}"
  return { name, origin := originOf (node.bytesOf 4) takes values, values, takes,
           description := .unknown }

end Producer

/-- The producers of a graph in their order. -/
abbrev Graph := List Producer

namespace Graph

/-- The producer that yields the value of a name. -/
def find? (g : Graph) (name : Bytes) : Option Nat :=
  (g.zipIdx.reverse.find? fun (p, _) => name ∈ p.values).map (·.2)

/-- Changes what is said of a value. -/
def describe (g : Graph) (i : Nat) (d : Description) : Graph :=
  g.modify i fun p => { p with description := d }

@[simp] theorem length_describe (g : Graph) (i : Nat) (d : Description) :
    (g.describe i d).length = g.length := List.length_modify ..

/-- The producers on the way back from one to where its value comes from, that one last. The number
bounds the steps. -/
def trace? (g : Graph) : Nat → Nat → Option (List Nat)
  | 0, _ => none
  | steps + 1, i => do
    match (← g[i]?).origin with
    | .input | .constant _ => return [i]
    | .passedOn source => return i :: (← g.trace? steps (← g.find? source))
    | .computed => none

/-- All that is said of the value that comes from a producer, if some producers are on the ways
from it. -/
def joined? (g : Graph) (root : Nat) (ways : List (List Nat)) : Option Description := do
  let start := match (← g[root]?).origin with
    | .constant t => Description.ofTensor t
    | _ => .unknown
  let among := ways.filter fun way => way.getLast? = some root
  (root :: among.flatten).foldlM (fun d i => do d.join? (← g[i]?).description) start

/-- The inputs of a graph. -/
def inputs (g : Graph) : List Nat :=
  (g.zipIdx.filter fun (p, _) => p.origin matches .input).map (·.2)

/-- The model of a graph with some outputs. Producers that matter have different names. -/
def model? (g : Graph) (outputs : List Nat) : Option Model := do
  let ways ← outputs.mapM (g.trace? (g.length + 1))
  let used := (g.inputs ++ ways.flatten).eraseDups
  let names ← used.mapM fun i => do return (← g[i]?).name
  guard names.Nodup
  guard ((ways.filterMap List.getLast?).all fun root => (g.joined? root ways).isSome)
  let inputs ← g.inputs.mapM fun i => do
    let fact ← (← g.joined? i ways).fact?
    return { name := (← g[i]?).name, fact, initial := none : ModelInput }
  let outputs ← ways.mapM fun way => do
    let root ← way.getLast?
    match (← g[root]?).origin with
    | .constant t => return Output.constant t
    | _ =>
      let i := g.inputs.idxOf root
      if h : i < inputs.length then return .input ⟨i, h⟩ else none
  return ⟨inputs, outputs⟩

end Graph

/-- Reads what a graph says of the values within it. Values that are not there do not matter. -/
def describeInner (g : Graph) (info : Message) : Naming Graph := do
  match valueType? info, g.find? (info.bytesOf 1) with
  | some type, some i => return g.describe i (← innerDescription type)
  | _, _ => return g

/-- The producer of an input. The constant of its name takes its place, if there is one that did
not take the place of an earlier input. -/
def inputProducer (constants : List (Bytes × Tensor)) (earlier : List Bytes) (info : Message) :
    Naming Producer := do
  let name := info.bytesOf 1
  match if name ∈ earlier then none else constants.lookup name with
  | some t => Producer.ofConstant name t
  | none => Producer.ofInput name (← inputDescription info)

/-- The model of a graph. What the graph says of its outputs does not count. -/
def graphModel (graph : Message) : Naming Model := do
  let constants ← (graph.children 5).mapM fun m => do return (m.bytesOf 8, ← constant? m)
  let names := (graph.children 11).map (·.bytesOf 1)
  let inputs ← (graph.children 11).zipIdx.mapM fun (info, i) =>
    inputProducer constants.reverse (names.take i) info
  let others ← (constants.filter fun (name, _) => name ∉ names).mapM fun (name, t) =>
    Producer.ofConstant name t
  let start := inputs ++ others
  let nodes ← (graph.children 1).zipIdx.mapM fun (node, i) =>
    Producer.ofNode (start.length + i) node
  let g : Graph := start ++ nodes
  guard (nodes.all fun node => node.takes.all fun name => (g.find? name).isSome)
  let outputs ← (graph.children 12).mapM fun info => g.find? (info.bytesOf 1)
  let g := outputs.foldl (fun g i => g.describe i .unknown) g
  let g ← (graph.children 13).foldlM describeInner g
  g.model? outputs

/-- The model in a file. -/
def model? (bytes : List UInt8) : Option Model := do
  (graphModel (← (← decode? .model bytes).child? 7)).run' []

end QuantClassifier.Onnx
