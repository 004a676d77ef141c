/-
# What can be wrong with a graph

`Graph.ShapeError` lists why shapes cannot be inferred, `Graph.Error` why a graph is not well
formed.  Each cause has one wording.
-/
import ConvFlow.Conv.Extent
import ConvFlow.Graph.Basic
import ConvFlow.Text.Quoted

namespace ConvFlow.Graph

/-- Why the shape of a value cannot be inferred. -/
inductive ShapeError where
  /-- A node reads a value without a shape. -/
  | missing (value : String)
  /-- The operands of an element-wise node have shapes that cannot be joined. -/
  | broadcast (node : String) (lhs rhs : Shape)
  /-- A convolution has no output shape. -/
  | conv (node : String) (cause : Conv.ShapeError)
  deriving DecidableEq

/-- The wording of a shape error. -/
def ShapeError.message : ShapeError → String
  | missing value => s!"value '{value}' is missing shape information"
  | broadcast node lhs rhs =>
    s!"node '{node}' cannot broadcast {Text.numbers lhs} with {Text.numbers rhs}"
  | conv node cause => s!"could not infer shape for Conv node '{node}': {cause.message}"

/-- What is wrong with the constant operands of a convolution. -/
inductive WeightsFault where
  /-- The weights do not have four axes. -/
  | rank (shape : Shape)
  /-- The spatial extents of the weights are not the kernel's. -/
  | kernel (shape : Shape) (extents : Plane)
  /-- The output channels do not fall into equal groups. -/
  | groups (channels group : Nat)
  /-- The bias is not a list with one value for each output channel. -/
  | bias (shape : Shape) (channels : Nat)
  deriving DecidableEq

/-- The wording of a fault of constant operands. -/
def WeightsFault.message : WeightsFault → String
  | rank shape => s!"expected rank-4 weights, got shape {Text.numbers shape}"
  | kernel shape extents =>
    s!"weights shape {Text.numbers shape} does not match kernel_shape {Text.numbers extents.toList}"
  | groups channels group => s!"{channels} output channels not divisible by group {group}"
  | bias shape channels =>
    s!"bias shape {Text.numbers shape} does not match {channels} output channels"

/-- Why a graph is not well formed. -/
inductive Error where
  /-- A node has the wrong number of operands. -/
  | operands (node : String) (kind : OpKind) (got : Nat)
  /-- A node does not have exactly one result. -/
  | results (node : String) (kind : OpKind) (got : Nat)
  /-- A value is written twice, or is written although it is an input or a constant. -/
  | duplicateProducer (value : String)
  /-- A node reads a value that nothing provides. -/
  | danglingReference (node value : String)
  /-- A node reads a value that a later node writes. -/
  | notTopological (node value : String)
  /-- An output of the graph is a value that nothing provides. -/
  | undefinedOutput (value : String)
  /-- The named nodes wait for each other. -/
  | cycle (nodes : List String)
  /-- A convolution's weights or bias are not constant. -/
  | missingInitializer (node value : String)
  /-- A stride or a dilation of a convolution is zero. -/
  | zeroStep (attr node : String) (values : Plane)
  /-- The constant operands of a convolution do not fit it. -/
  | invalidWeights (node : String) (fault : WeightsFault)
  /-- Shapes cannot be inferred. -/
  | shape (cause : ShapeError)
  deriving DecidableEq

/-- How many operands an operation of each kind takes, in words. -/
def operandsExpected : OpKind → String
  | .add | .mul => "2 inputs"
  | .relu => "1 input"
  | .conv => "2 or 3 inputs (data, weights, optional bias)"

/-- The wording of an error. -/
def Error.message : Error → String
  | operands node kind got =>
    s!"{kind.name} node '{node}' expects {operandsExpected kind}, got {got}"
  | results node kind got => s!"{kind.name} node '{node}' expects 1 output, got {got}"
  | duplicateProducer value => s!"value '{value}' is produced more than once"
  | danglingReference node value => s!"node '{node}' reads '{value}' which is never produced"
  | notTopological node value => s!"node '{node}' reads '{value}' before it is produced"
  | undefinedOutput value => s!"graph output '{value}' is never produced"
  | cycle nodes =>
    s!"graph contains a cycle through nodes {Text.listing (nodes.map Text.quoted)}"
  | missingInitializer node value => s!"node '{node}' requires '{value}' to be an initializer"
  | zeroStep attr node values =>
    s!"invalid attribute '{attr}' on node '{node}': "
      ++ s!"must be positive, got {Text.numbers values.toList}"
  | invalidWeights node fault => s!"invalid weights for node '{node}': {fault.message}"
  | shape cause => cause.message

end ConvFlow.Graph
