/-
# Executing a graph

Execution keeps a table of values by name.  It starts with the constants and the given inputs,
runs the nodes in their order, each adding its result, and then takes the declared outputs out of
the table one after another.
-/
import ConvFlow.Conv.Direct
import ConvFlow.Graph.Basic

namespace ConvFlow

namespace Execution

/-- Why a graph cannot be executed. -/
inductive Error where
  /-- No tensor is given for an input. -/
  | missingInput (name : String)
  /-- The tensor given for an input has the wrong shape. -/
  | inputShape (name : String) (expected got : Shape)
  /-- A node reads a value that has not been computed. -/
  | missingValue (node value : String)
  /-- The operands of an element-wise node have shapes that cannot be joined. -/
  | broadcast (node : String) (lhs rhs : Shape)
  /-- A convolution cannot be computed. -/
  | conv (node : String) (cause : Conv.Error)
  /-- An output has not been computed, or has been delivered already. -/
  | missingOutput (name : String)
  deriving DecidableEq

/-- The wording of an error. -/
def Error.message : Error → String
  | missingInput name => s!"missing value for graph input '{name}'"
  | inputShape name expected got =>
    s!"graph input '{name}' expects shape {Text.numbers expected}, got {Text.numbers got}"
  | missingValue node value => s!"node '{node}' reads '{value}' which has not been computed"
  | broadcast node lhs rhs =>
    s!"node '{node}' cannot broadcast {Text.numbers lhs} with {Text.numbers rhs}"
  | conv node cause => s!"convolution '{node}' failed: {cause.message}"
  | missingOutput name => s!"graph output '{name}' was not computed"

/-- The values computed so far, by name. -/
abbrev Context (α : Type) := NameMap (Tensor α)

variable {α : Type} [Element α]

/-- The value that a node reads as operand `i`. -/
def readOperand (ctx : Context α) (n : Node) (i : Nat) : Except Error (Tensor α) :=
  match ctx[n.operand i]? with
  | some t => .ok t
  | none => .error (.missingValue n.name (n.operand i))

/-- The bias of a convolution node, if it has a third operand. -/
def readBias (ctx : Context α) (n : Node) : Except Error (Option (Tensor α)) :=
  if 2 < n.inputs.length then (readOperand ctx n 2).map some else .ok none

/-- The result of applying an operation to corresponding elements of the first two operands. -/
def runElementwise (op : α → α → α) (ctx : Context α) (n : Node) : Except Error (Tensor α) := do
  let lhs ← readOperand ctx n 0
  let rhs ← readOperand ctx n 1
  match Tensor.zipBroadcast op lhs rhs with
  | some t => return t
  | none => throw (.broadcast n.name lhs.shape rhs.shape)

/-- The result of a node. -/
def runOp (ctx : Context α) (n : Node) : Except Error (Tensor α) :=
  match n.op with
  | .relu => (readOperand ctx n 0).map (Tensor.map Element.positivePart)
  | .add => runElementwise (· + ·) ctx n
  | .mul => runElementwise (· * ·) ctx n
  | .conv attrs => do
    let bias ← readBias ctx n
    let x ← readOperand ctx n 0
    let w ← readOperand ctx n 1
    (Conv.conv2d x w bias attrs).mapError (.conv n.name)

/-- Run a node and add its result to the table. -/
def runNode (ctx : Context α) (n : Node) : Except Error (Context α) := do
  let t ← runOp ctx n
  return ctx.insert n.result t

/-- Add the tensor given for a declared input, which has to have the declared shape. -/
def bindInput (given : NameMap (Tensor α)) (ctx : Context α) (d : ValueDecl) :
    Except Error (Context α) :=
  match given[d.name]? with
  | none => .error (.missingInput d.name)
  | some t =>
    if t.shape = d.shape then .ok (ctx.insert d.name t)
    else .error (.inputShape d.name d.shape t.shape)

/-- The table before the first node runs: the constants and, taking precedence over them, the
inputs. -/
def initialContext (g : Graph α) (given : NameMap (Tensor α)) : Except Error (Context α) :=
  g.inputs.foldlM (bindInput given) g.initializers

/-- Take the outputs out of the table; each value can be taken once. -/
def deliver : List String → Context α → Except Error (NameMap (Tensor α))
  | [], _ => .ok ∅
  | v :: rest, ctx =>
    match ctx[v]? with
    | none => .error (.missingOutput v)
    | some t => (deliver rest (ctx.erase v)).map fun m => m.insert v t

end Execution

/-- The declared outputs of a graph for the given inputs. -/
def Graph.execute {α : Type} [Element α] (g : Graph α) (given : NameMap (Tensor α)) :
    Except Execution.Error (NameMap (Tensor α)) := do
  let start ← Execution.initialContext g given
  let final ← g.nodes.foldlM Execution.runNode start
  Execution.deliver g.outputs final

end ConvFlow
