/-
# Reading and writing the written form of graphs

Every record has a decoder and an encoder.  Fields are written in the order of their declaration;
a name that is not given and options that are empty are left out.
-/
import ConvFlow.Json.Decoder
import ConvFlow.Json.Printer
import ConvFlow.Wire.Graph

namespace ConvFlow.Wire

open Json (Decoder Fields)

/-! ## Writing -/

/-- A list of extents. -/
def encodeShape (shape : List UInt32) : Json := Json.ofNats (shape.map (·.toNat))

/-- An input's declaration. -/
def Operand.encode (d : Operand) : Json :=
  .object [("name", .string d.name), ("dataType", .string d.dataType.name),
    ("shape", encodeShape d.shape)]

/-- A tensor. -/
def Tensor.encode (t : Tensor Float32) : Json :=
  .object [("shape", encodeShape t.shape), ("data", .array (t.data.toList.map Json.ofSingle))]

/-- The field for a name, if there is one. -/
def nameField (name : Option String) : Json.Members :=
  match name with
  | some s => [("name", .string s)]
  | none => []

/-- A node. -/
def Node.encode (n : Node) : Json :=
  .object (nameField n.name
    ++ [("op", .string n.op), ("inputs", Json.ofStrings n.inputs),
      ("outputs", Json.ofStrings n.outputs)]
    ++ if n.options.isEmpty then [] else [("options", .object n.options)])

/-- A graph. -/
def Graph.encode (g : Graph Float32) : Json :=
  .object (nameField g.name
    ++ [("inputs", .array (g.inputs.map Operand.encode)),
      ("outputs", Json.ofStrings g.outputs),
      ("initializers", .object (g.initializers.toList.map fun (k, t) => (k, t.encode))),
      ("nodes", .array (g.nodes.map Node.encode))])

/-! ## Reading -/

/-- A list of extents. -/
def decodeShape : Decoder (List UInt32) := Decoder.listOf Decoder.word32

/-- A list of strings. -/
def decodeNames : Decoder (List String) := Decoder.listOf Decoder.text

/-- An input's declaration. -/
def Operand.decode : Decoder Operand :=
  Decoder.record ["name", "dataType", "shape"] fun f =>
    Operand.mk <$> f.required "name" Decoder.text
      <*> f.required "dataType" (Decoder.oneOf DataType.named)
      <*> f.required "shape" decodeShape

/-- A tensor. -/
def Tensor.decode : Decoder (Tensor Float32) :=
  Decoder.record ["shape", "data"] fun f =>
    (fun shape data => ⟨shape, List.toArray data⟩) <$> f.required "shape" decodeShape
      <*> f.required "data" (Decoder.listOf Decoder.single)

/-- How many brackets may be open inside the options of a node: the graph, its list of nodes, the
node and the options themselves are open already. -/
def optionsRoom : Nat := Json.nestingLimit - 4

/-- A node. -/
def Node.decode : Decoder Node :=
  Decoder.record ["name", "op", "inputs", "outputs", "options"] fun f =>
    Node.mk <$> f.optional "name" none (Decoder.nullable Decoder.text)
      <*> f.required "op" Decoder.text
      <*> f.required "inputs" decodeNames
      <*> f.required "outputs" decodeNames
      <*> f.optional "options" [] (Decoder.members optionsRoom)

/-- A graph. -/
def Graph.decode : Decoder (Graph Float32) :=
  Decoder.record ["name", "inputs", "outputs", "initializers", "nodes"] fun f =>
    Graph.mk <$> f.optional "name" none (Decoder.nullable Decoder.text)
      <*> f.required "inputs" (Decoder.listOf Operand.decode)
      <*> f.required "outputs" decodeNames
      <*> f.optional "initializers" ∅ (Decoder.mapOf Tensor.decode)
      <*> f.required "nodes" (Decoder.listOf Node.decode)

end ConvFlow.Wire
