/-
# Checked graphs

A graph is ready for execution and for rules once its nodes are sorted, it is well formed and its
shapes are known; `Graph.checked` does all three.  `Graph.assemble` builds a checked graph from
operations listed in any order.
-/
import ConvFlow.Graph.Shapes
import ConvFlow.Graph.WellFormed

namespace ConvFlow.Graph

variable {α : Type}

/-- Sort the nodes, check that the graph is well formed and infer its shapes. -/
def checked (g : Graph α) : Except Error (Graph α) := do
  let g ← g.sorted
  g.validate
  g.inferShapes.mapError .shape

/-- An operation with the names of its operands and its results. -/
structure Step where
  /-- What is computed. -/
  op : Op
  /-- The names of the operands. -/
  inputs : List String
  /-- The names of the results. -/
  outputs : List String

/-- The node that the step at a position becomes: it is named for its kind and its position. -/
def Step.toNode (s : Step) (position : Nat) : Node where
  name := s!"{s.op.kind.name}_{position}"
  op := s.op
  inputs := s.inputs
  outputs := s.outputs

/-- A checked graph from its parts. -/
def assemble (name : String) (inputs : List ValueDecl) (outputs : List String)
    (initializers : NameMap (Tensor α)) (steps : List Step) : Except Error (Graph α) :=
  checked {
    name, inputs, outputs, initializers
    nodes := steps.zipIdx.map fun (s, i) => s.toNode i
    valueShapes := ∅ }

end ConvFlow.Graph
