/-
# Inferring shapes

The shapes of all values follow from those of the inputs and the constants, node by node.  They
are computed afresh every time; a shape that was recorded before plays no part.
-/
import ConvFlow.Graph.Error

namespace ConvFlow.Graph

variable {α : Type}

/-- The shape recorded for a value. -/
def lookupShape (shapes : NameMap Shape) (v : String) : Except ShapeError Shape :=
  match shapes[v]? with
  | some s => .ok s
  | none => .error (.missing v)

/-- The shape of a node's result, from the shapes recorded so far. -/
def resultShape (shapes : NameMap Shape) (n : Node) : Except ShapeError Shape :=
  match n.op with
  | .relu => lookupShape shapes (n.operand 0)
  | .add | .mul => do
    let lhs ← lookupShape shapes (n.operand 0)
    let rhs ← lookupShape shapes (n.operand 1)
    match lhs.broadcast rhs with
    | some s => return s
    | none => throw (.broadcast n.name lhs rhs)
  | .conv attrs => do
    let input ← lookupShape shapes (n.operand 0)
    let weights ← lookupShape shapes (n.operand 1)
    (Conv.outputShape input weights attrs).mapError (.conv n.name)

/-- Record the shape of a node's results. -/
def recordShape (shapes : NameMap Shape) (n : Node) : Except ShapeError (NameMap Shape) := do
  let s ← resultShape shapes n
  return n.outputs.foldl (fun m v => m.insert v s) shapes

/-- The shapes of the inputs and, taking precedence over them, of the constants. -/
def sourceShapes (g : Graph α) : NameMap Shape :=
  let declared := g.inputs.foldl (fun m d => m.insert d.name d.shape) (∅ : NameMap Shape)
  g.initializers.toList.foldl (fun m (v, t) => m.insert v t.shape) declared

/-- The graph with the shapes of all its values. -/
def inferShapes (g : Graph α) : Except ShapeError (Graph α) := do
  let shapes ← g.nodes.foldlM recordShape g.sourceShapes
  return { g with valueShapes := shapes }

end ConvFlow.Graph
