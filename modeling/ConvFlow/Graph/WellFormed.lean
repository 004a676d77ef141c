/-
# Well-formed graphs

`Graph.validate` checks, in this order: every value is written once; then, node by node, every
operand is available when the node runs, the numbers of operands and results suit the operation,
and a convolution's weights and bias are constants that fit its attributes; at last, every output
of the graph is available.  The first violation found is reported.
-/
import ConvFlow.Graph.Order

namespace ConvFlow.Graph

variable {α : Type}

/-- Whether an operation of the kind takes this number of operands. -/
def takesOperands : OpKind → Nat → Bool
  | .add, n | .mul, n => n == 2
  | .relu, n => n == 1
  | .conv, n => n == 2 || n == 3

/-- The node has as many operands as its operation takes, and one result. -/
def checkArity (n : Node) : Except Error Unit :=
  if !takesOperands n.op.kind n.inputs.length then
    .error (.operands n.name n.op.kind n.inputs.length)
  else if n.outputs.length ≠ 1 then .error (.results n.name n.op.kind n.outputs.length)
  else .ok ()

/-- The constant that a node reads as operand `i`. -/
def constantOperand (g : Graph α) (n : Node) (i : Nat) : Except Error (Tensor α) :=
  match g.initializers[n.operand i]? with
  | some t => .ok t
  | none => .error (.missingInitializer n.name (n.operand i))

/-- Strides and dilations are positive. -/
def checkSteps (n : Node) (attrs : Conv.Attributes) : Except Error Unit :=
  if 0 ∈ attrs.strides.toList then .error (.zeroStep "strides" n.name attrs.strides)
  else if 0 ∈ attrs.dilations.toList then .error (.zeroStep "dilations" n.name attrs.dilations)
  else .ok ()

/-- What is wrong with weights of the given shape, if anything. -/
def weightsFault? (shape : Shape) (attrs : Conv.Attributes) : Option WeightsFault :=
  match shape with
  | [outChannels, _, rows, cols] =>
    if attrs.kernel ≠ ⟨rows, cols⟩ then some (.kernel shape attrs.kernel)
    else if attrs.group = 0 ∨ outChannels % attrs.group ≠ 0 then
      some (.groups outChannels attrs.group)
    else none
  | _ => some (.rank shape)

/-- The weights of a convolution and its bias, if it has one, are constants that fit. -/
def checkConstants (g : Graph α) (n : Node) (attrs : Conv.Attributes) : Except Error Unit := do
  checkSteps n attrs
  let weights ← g.constantOperand n 1
  match weightsFault? weights.shape attrs with
  | some fault => throw (.invalidWeights n.name fault)
  | none =>
    if 2 < n.inputs.length then
      let bias ← g.constantOperand n 2
      let outChannels := weights.shape.getD 0 0
      if bias.shape ≠ [outChannels] then
        throw (.invalidWeights n.name (.bias bias.shape outChannels))

/-- The operands of the node are among the available values. -/
def checkOperands (g : Graph α) (available : List String) (n : Node) : Except Error Unit :=
  match n.inputs.find? fun v => !available.contains v with
  | none => .ok ()
  | some v =>
    if g.results.contains v then .error (.notTopological n.name v)
    else .error (.danglingReference n.name v)

/-- The node may run once the given values are available. -/
def checkNode (g : Graph α) (available : List String) (n : Node) : Except Error Unit := do
  g.checkOperands available n
  checkArity n
  match n.op with
  | .conv attrs => g.checkConstants n attrs
  | _ => pure ()

/-- The nodes may run one after another; the result lists the values available after them. -/
def checkNodes (g : Graph α) : List String → List Node → Except Error (List String)
  | available, [] => .ok available
  | available, n :: rest => do
    g.checkNode available n
    g.checkNodes (n.outputs ++ available) rest

/-- Check that the graph is well formed. -/
def validate (g : Graph α) : Except Error Unit := do
  g.checkProducers
  let available ← g.checkNodes g.sources g.nodes
  match g.outputs.find? fun v => !available.contains v with
  | some v => throw (.undefinedOutput v)
  | none => pure ()

end ConvFlow.Graph
