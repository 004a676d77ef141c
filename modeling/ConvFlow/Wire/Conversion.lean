/-
# Between written and checked graphs

`Wire.Graph.toGraph` gives a written graph its meaning: types of elements are checked, tensors get
their shapes, names of operations and options become operations, and the graph that results is
sorted, validated and completed with the shapes of all values.  `Wire.Graph.ofGraph` writes a graph
down with all attributes spelled out.
-/
import ConvFlow.Graph.Checked
import ConvFlow.Json.Printer
import ConvFlow.Wire.Graph

namespace ConvFlow.Wire

/-- Why elements do not fit a shape. -/
inductive TensorFault where
  /-- The extents multiply to more elements than can be counted. -/
  | tooLarge
  /-- There are fewer elements than the shape asks for. -/
  | tooFew
  /-- There are more elements than the shape asks for. -/
  | tooMany
  deriving DecidableEq

/-- The wording of a fault of a tensor. -/
def TensorFault.message : TensorFault → String
  | tooLarge => "ShapeError/Overflow: arithmetic overflow"
  | tooFew => "ShapeError/OutOfBounds: out of bounds indexing"
  | tooMany => "ShapeError/IncompatibleShape: incompatible shapes"

/-- Why an option has no valid value. -/
inductive OptionFault where
  /-- The value is not a list of whole numbers of 64 bits. -/
  | notIntegers (value : Json)
  /-- The value is not a positive whole number. -/
  | notPositive (value : Json)
  /-- A number of the list is negative. -/
  | negative (n : Int)
  /-- A stride or a dilation is zero. -/
  | zeroStep

/-- The wording of a fault of an option. -/
def OptionFault.message : OptionFault → String
  | notIntegers value => s!"expected an integer list, got {value.compact}"
  | notPositive value => s!"expected a positive integer, got {value.compact}"
  | negative n => s!"negative value {Text.integer n}"
  | zeroStep => "must be positive"

/-- A value of an option that is valid but asks for something else than a two-dimensional
convolution without automatic padding. -/
inductive Unsupported where
  /-- A list with the wrong number of entries. -/
  | length (values : List Int)
  /-- Weights with extents for another number of spatial axes. -/
  | spatialExtents (extents : List Nat)
  /-- A way of automatic padding. -/
  | autoPad (mode : String)

/-- How a value that is not supported is shown. -/
def Unsupported.message : Unsupported → String
  | length values => s!"{Text.integers values} (only 2D convolution is supported)"
  | spatialExtents extents => Text.numbers extents
  | autoPad mode => mode

/-- Why a written graph has no meaning. -/
inductive Error where
  /-- An input has elements that are not single precision floats. -/
  | unsupportedDataType (name : String) (dataType : DataType)
  /-- The elements of a constant do not fit its shape. -/
  | invalidInitializer (name : String) (fault : TensorFault)
  /-- There is no operation of this name. -/
  | unsupportedOp (op node : String)
  /-- An option is missing and cannot be derived. -/
  | missingAttribute (attr node : String)
  /-- An option has no valid value. -/
  | invalidAttribute (attr node : String) (fault : OptionFault)
  /-- An option asks for something that is not supported. -/
  | unsupportedAttribute (attr node : String) (value : Unsupported)
  /-- The graph is not well formed. -/
  | graph (cause : ConvFlow.Graph.Error)

/-- The wording of an error. -/
def Error.message : Error → String
  | unsupportedDataType name dataType =>
    s!"value '{name}' has unsupported data type {dataType.title}"
  | invalidInitializer name fault => s!"invalid initializer '{name}': {fault.message}"
  | unsupportedOp op node => s!"unsupported op '{op}' at node '{node}'"
  | missingAttribute attr node => s!"missing attribute '{attr}' on node '{node}'"
  | invalidAttribute attr node fault =>
    s!"invalid attribute '{attr}' on node '{node}': {fault.message}"
  | unsupportedAttribute attr node value =>
    s!"unsupported value {value.message} for attribute '{attr}' on node '{node}'"
  | graph cause => cause.message

/-! ## Tensors and inputs -/

variable {α : Type}

/-- The extents of a written shape. -/
def toShape (shape : List UInt32) : Shape := shape.map (·.toNat)

/-- A written shape; extents are reduced to 32 bits. -/
def ofShape (shape : Shape) : List UInt32 := shape.map UInt32.ofNat

/-- The largest number of elements that can be counted. -/
def maxElements : Nat := 0x7FFFFFFFFFFFFFFF

/-- The tensor of a written one. -/
def Tensor.toTensor (t : Tensor α) : Except TensorFault (ConvFlow.Tensor α) :=
  let shape := toShape t.shape
  if maxElements < Shape.size (shape.filter (· ≠ 0)) then .error .tooLarge
  else if h : t.data.size = shape.size then .ok ⟨shape, t.data, h⟩
  else if t.data.size < shape.size then .error .tooFew
  else .error .tooMany

/-- The written form of a tensor. -/
def Tensor.ofTensor (t : ConvFlow.Tensor α) : Tensor α := ⟨ofShape t.shape, t.data⟩

/-- The declaration of an input. -/
def Operand.toDecl (d : Operand) : Except Error ValueDecl :=
  if d.dataType = .float32 then .ok ⟨d.name, toShape d.shape⟩
  else .error (.unsupportedDataType d.name d.dataType)

/-- The written form of a declaration. -/
def Operand.ofDecl (d : ValueDecl) : Operand := ⟨d.name, .float32, ofShape d.shape⟩

/-! ## Options of a convolution -/

/-- A whole number that a signed word of 64 bits can hold. -/
def signedWord? : Json → Option Int
  | .number (.integer n) => if -0x8000000000000000 ≤ n ∧ n < 0x8000000000000000 then some n else none
  | _ => none

/-- The whole numbers of a list. -/
def signedWords? : Json → Option (List Int)
  | .array items => items.mapM signedWord?
  | _ => none

/-- An option that is a list of whole numbers, if it is given. -/
def readIntegers (options : Json.Members) (attr node : String) :
    Except Error (Option (List Int)) :=
  match options.get? attr with
  | none => .ok none
  | some value =>
    match signedWords? value with
    | some ns => .ok (some ns)
    | none => .error (.invalidAttribute attr node (.notIntegers value))

/-- The entries of a list that has the given length and no negative entries. -/
def checkIntegers (length : Nat) (attr node : String) (ns : List Int) :
    Except Error (List Nat) :=
  if ns.length ≠ length then .error (.unsupportedAttribute attr node (.length ns))
  else
    match ns.find? (· < 0) with
    | some n => .error (.invalidAttribute attr node (.negative n))
    | none => .ok (ns.map Int.toNat)

/-- The two numbers of a list. -/
def planeOf (ns : List Nat) : Plane := ⟨ns.getD 0 0, ns.getD 1 0⟩

/-- The four numbers of a list. -/
def paddingOf (ns : List Nat) : Padding := ⟨ns.getD 0 0, ns.getD 1 0, ns.getD 2 0, ns.getD 3 0⟩

/-- An option with one number for each spatial axis, if it is given. -/
def readPlane (options : Json.Members) (attr node : String) : Except Error (Option Plane) := do
  match ← readIntegers options attr node with
  | none => return none
  | some ns => return some (planeOf (← checkIntegers 2 attr node ns))

/-- The padding, if it is given. -/
def readPadding (options : Json.Members) (node : String) : Except Error (Option Padding) := do
  match ← readIntegers options "pads" node with
  | none => return none
  | some ns => return some (paddingOf (← checkIntegers 4 "pads" node ns))

/-- The extents of the kernel of weights with the given shape. -/
def kernelOfShape (node : String) (shape : Shape) : Except Error Plane :=
  match shape with
  | [_, _, rows, cols] => .ok ⟨rows, cols⟩
  | _ => .error (.unsupportedAttribute "kernel_shape" node (.spatialExtents (shape.drop 2)))

/-- The extents of the kernel: the option or, if it is not given, those of the constant weights. -/
def readKernel (constants : NameMap (ConvFlow.Tensor α)) (n : Node) (node : String) :
    Except Error Plane := do
  match ← readPlane n.options "kernel_shape" node with
  | some k => return k
  | none =>
    match n.inputs[1]?.bind (constants[·]?) with
    | some weights => kernelOfShape node weights.shape
    | none => throw (.missingAttribute "kernel_shape" node)

/-- Padding is never derived: of the named ways of padding only those that say so are supported. -/
def checkAutoPad (options : Json.Members) (node : String) : Except Error Unit :=
  match options.get? "auto_pad" with
  | some (.string mode) =>
    if mode = "NOTSET" ∨ mode = "VALID" then .ok ()
    else .error (.unsupportedAttribute "auto_pad" node (.autoPad mode))
  | _ => .ok ()

/-- The number of groups. -/
def readGroup (options : Json.Members) (node : String) : Except Error Nat :=
  match options.get? "group" with
  | none => .ok 1
  | some value =>
    match value with
    | .number (.integer n) =>
      if 0 < n then .ok n.toNat else .error (.invalidAttribute "group" node (.notPositive value))
    | _ => .error (.invalidAttribute "group" node (.notPositive value))

/-- The attributes that a convolution's options spell out. -/
def readAttributes (constants : NameMap (ConvFlow.Tensor α)) (n : Node) (node : String) :
    Except Error Conv.Attributes := do
  let kernel ← readKernel constants n node
  checkAutoPad n.options node
  let pads ← readPadding n.options node
  let strides ← readPlane n.options "strides" node
  let dilations ← readPlane n.options "dilations" node
  let group ← readGroup n.options node
  let attrs : Conv.Attributes := {
    kernel
    pads := pads.getD Padding.none
    strides := strides.getD ⟨1, 1⟩
    dilations := dilations.getD ⟨1, 1⟩
    group }
  if 0 ∈ attrs.strides.toList ∨ 0 ∈ attrs.dilations.toList then
    throw (.invalidAttribute "strides/dilations" node .zeroStep)
  return attrs

/-- The options that spell out attributes. -/
def writeAttributes (attrs : Conv.Attributes) : Json.Members :=
  [("kernel_shape", Json.ofNats attrs.kernel.toList),
    ("pads", Json.ofNats attrs.pads.toList),
    ("strides", Json.ofNats attrs.strides.toList),
    ("dilations", Json.ofNats attrs.dilations.toList),
    ("group", Json.ofNat attrs.group)]

/-! ## Nodes and graphs -/

/-- The operation of a node. -/
def readOp (constants : NameMap (ConvFlow.Tensor α)) (n : Node) (node : String) :
    Except Error Op :=
  match OpKind.ofName? n.op with
  | none => .error (.unsupportedOp n.op node)
  | some .add => .ok .add
  | some .mul => .ok .mul
  | some .relu => .ok .relu
  | some .conv => (readAttributes constants n node).map .conv

/-- The node that is written at a position; without a name it is named for its operation and its
position. -/
def Node.toNode (constants : NameMap (ConvFlow.Tensor α)) (n : Node) (position : Nat) :
    Except Error ConvFlow.Node := do
  let name := n.name.getD s!"{n.op}_{position}"
  let op ← readOp constants n name
  return { name, op, inputs := n.inputs, outputs := n.outputs }

/-- The options that spell out an operation. -/
def writeOp : Op → Json.Members
  | .conv attrs => writeAttributes attrs
  | _ => []

/-- The written form of a node. -/
def Node.ofNode (n : ConvFlow.Node) : Node where
  name := some n.name
  op := n.op.kind.name
  inputs := n.inputs
  outputs := n.outputs
  options := writeOp n.op

/-- The tensors of the written constants, in the order of their names. -/
def toConstants (initializers : NameMap (Tensor α)) :
    Except Error (NameMap (ConvFlow.Tensor α)) :=
  initializers.toList.foldlM (fun m (name, t) => do
    let t ← t.toTensor.mapError (.invalidInitializer name)
    return m.insert name t) ∅

/-- The graph before it is checked. -/
def Graph.toUnchecked (g : Graph α) : Except Error (ConvFlow.Graph α) := do
  let inputs ← g.inputs.mapM Operand.toDecl
  let constants ← toConstants g.initializers
  let nodes ← g.nodes.zipIdx.mapM fun (n, i) => n.toNode constants i
  return {
    name := g.name.getD "graph"
    inputs
    outputs := g.outputs
    nodes
    initializers := constants
    valueShapes := ∅ }

/-- The checked graph that a written one stands for. -/
def Graph.toGraph (g : Graph α) : Except Error (ConvFlow.Graph α) := do
  let g ← g.toUnchecked
  g.checked.mapError .graph

/-- The written form of a graph. -/
def Graph.ofGraph (g : ConvFlow.Graph α) : Graph α where
  name := some g.name
  inputs := g.inputs.map Operand.ofDecl
  outputs := g.outputs
  initializers := g.initializers.map fun _ t => Tensor.ofTensor t
  nodes := g.nodes.map Node.ofNode

end ConvFlow.Wire
