/-
# Places where an operation can move past a convolution

A site is a node that combines one computed value with one constant, together with the only node
that reads its result, a convolution that takes it as its image.  `site?` finds the site at a
node, and `moveAlong` exchanges the two nodes.

The exchange keeps the names of values: the convolution now reads what the operation read and
writes the name that the operation wrote, and the operation reads that name and writes the name
that the convolution wrote.  No other node is touched.
-/
import ConvFlow.Graph.Basic

namespace ConvFlow.Graph

/-- An operation in front of a convolution. -/
structure Site where
  /-- The position of the operation. -/
  op : Nat
  /-- The position of the convolution. -/
  conv : Nat
  /-- Which operand of the operation is the computed one. -/
  dataSlot : Nat
  /-- The name of the constant operand. -/
  constant : String
  deriving DecidableEq

variable {α : Type}

/-- Which of two operands is computed while the other is constant. -/
def dataSlot? (g : Graph α) (n : Node) : Option Nat :=
  match g.isInitializer (n.operand 0), g.isInitializer (n.operand 1) with
  | false, true => some 0
  | true, false => some 1
  | _, _ => none

/-- Whether the result of the node is known to have the shape of its operand `slot`. -/
def keepsShape (g : Graph α) (n : Node) (slot : Nat) : Bool :=
  match g.valueShapes[n.operand slot]? with
  | some s => g.valueShapes[n.result]? == some s
  | none => false

/-- Whether the node is a convolution that takes the value as its image and whose other operands
are constants. -/
def isPlainConv (g : Graph α) (n : Node) (v : String) : Bool :=
  n.op.kind == .conv && n.operand 0 == v && (n.inputs.drop 1).all g.isInitializer

/-- The site at the node at position `i`: the node is of the given kind, combines one computed
value with one constant without changing the shape, and its result is not an output of the graph
and is read by a single node, which is a convolution with that result as its image. -/
def site? (g : Graph α) (kind : OpKind) (i : Nat) : Option Site := do
  let n ← g.nodes[i]?
  guard (n.op.kind == kind && !g.isJoin n && !g.isFork n)
  let slot ← g.dataSlot? n
  guard (g.keepsShape n slot && !g.isOutput n.result)
  let j ← g.consumer? n.result
  let c ← g.nodes[j]?
  guard (g.isPlainConv c n.result)
  return ⟨i, j, slot, n.operand (1 - slot)⟩

/-- The convolution of an exchange, reading `start` and writing `between`. -/
def movedConv (c : Node) (start between : String) : Node :=
  { c with inputs := c.inputs.set 0 start, outputs := c.outputs.set 0 between }

/-- The operation of an exchange, reading `between` in its slot and writing `last`. -/
def movedOp (n : Node) (slot : Nat) (between last : String) : Node :=
  { n with inputs := n.inputs.set slot between, outputs := n.outputs.set 0 last }

/-- Exchange the operation and the convolution of a site.  The convolution comes after the
operation, so once the operation is taken out of the list, the position of the convolution is the
one right behind it. -/
def moveAlong (g : Graph α) (site : Site) : Graph α :=
  match g.nodes[site.op]?, g.nodes[site.conv]? with
  | some n, some c =>
    let start := n.operand site.dataSlot
    let between := n.result
    let nodes := g.nodes.set site.conv (movedConv c start between)
    { g with
      nodes := (nodes.eraseIdx site.op).insertIdx site.conv
        (movedOp n site.dataSlot between c.result) }
  | _, _ => g

end ConvFlow.Graph
