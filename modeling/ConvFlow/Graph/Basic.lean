/-
# Computation graphs

A graph declares named inputs with their shapes, holds constant tensors (initializers) under
names, and lists nodes.  A node reads values by name, applies one operation and writes its result
under a name of its own.  The graph's outputs are names of values.

This file sets up the data and the questions that are asked about it: what a name stands for,
which node writes a value and which nodes read it, and which name is still free.
-/
import ConvFlow.NameMap
import ConvFlow.Tensor
import ConvFlow.Conv.Attributes

namespace ConvFlow

/-- The kinds of operations. -/
inductive OpKind where
  | add
  | mul
  | relu
  | conv
  deriving DecidableEq

namespace OpKind

/-- The name of a kind. -/
def name : OpKind → String
  | add => "Add"
  | mul => "Mul"
  | relu => "Relu"
  | conv => "Conv"

/-- The kind with the given name. -/
def ofName? : String → Option OpKind
  | "Add" => some add
  | "Mul" => some mul
  | "Relu" => some relu
  | "Conv" => some conv
  | _ => none

theorem ofName?_name (k : OpKind) : ofName? k.name = some k := by
  cases k <;> rfl

end OpKind

/-- An operation with its attributes. -/
inductive Op where
  | add
  | mul
  | relu
  | conv (attrs : Conv.Attributes)
  deriving DecidableEq

/-- The kind of an operation. -/
def Op.kind : Op → OpKind
  | add => .add
  | mul => .mul
  | relu => .relu
  | conv _ => .conv

/-- One step of a graph. -/
structure Node where
  /-- The name that messages use for the node. -/
  name : String
  /-- What the node computes. -/
  op : Op
  /-- The names of the values that the node reads, in the order of the operands. -/
  inputs : List String
  /-- The names under which the result is written. -/
  outputs : List String
  deriving DecidableEq

namespace Node

/-- The name of an operand. -/
def operand (n : Node) (i : Nat) : String := n.inputs.getD i ""

/-- The name of the result. -/
def result (n : Node) : String := n.outputs.getD 0 ""

end Node

/-- The declaration of a graph input. -/
structure ValueDecl where
  /-- The name of the input. -/
  name : String
  /-- The shape that its tensor has to have. -/
  shape : Shape
  deriving DecidableEq

/-- A computation graph. -/
structure Graph (α : Type) where
  /-- The name of the graph. -/
  name : String
  /-- The declared inputs. -/
  inputs : List ValueDecl
  /-- The names of the values that the graph delivers. -/
  outputs : List String
  /-- The nodes, in the order of their execution. -/
  nodes : List Node
  /-- The constant tensors. -/
  initializers : NameMap (Tensor α)
  /-- The shapes of all values, as far as they have been inferred. -/
  valueShapes : NameMap Shape
  deriving DecidableEq

namespace Graph

variable {α : Type}

/-- Whether the name is declared as an input. -/
def isInput (g : Graph α) (v : String) : Bool := g.inputs.any (·.name == v)

/-- Whether the name is delivered as an output. -/
def isOutput (g : Graph α) (v : String) : Bool := g.outputs.contains v

/-- Whether the name belongs to a constant tensor. -/
def isInitializer (g : Graph α) (v : String) : Bool := g.initializers.contains v

/-- The names that have a value before the first node runs. -/
def sources (g : Graph α) : List String := g.inputs.map (·.name) ++ g.initializers.keys

/-- The names that nodes write, in order. -/
def results (g : Graph α) : List String := g.nodes.flatMap (·.outputs)

/-- The position of the first node that writes the value. -/
def producer? (g : Graph α) (v : String) : Option Nat :=
  g.nodes.findIdx? fun n => n.outputs.contains v

/-- The positions of the nodes that read the value. -/
def consumers (g : Graph α) (v : String) : List Nat :=
  g.nodes.zipIdx.filterMap fun (n, i) => if n.inputs.contains v then some i else none

/-- The position of the only node that reads the value; none if no node or several do. -/
def consumer? (g : Graph α) (v : String) : Option Nat :=
  match g.consumers v with
  | [i] => some i
  | _ => none

/-- Whether a result of the node is read by more than one node. -/
def isFork (g : Graph α) (n : Node) : Bool := n.outputs.any fun v => 1 < (g.consumers v).length

/-- Whether the node reads more than one value that is not constant. -/
def isJoin (g : Graph α) (n : Node) : Bool := 1 < n.inputs.countP fun v => !g.isInitializer v

/-- The names in use: those of inputs, of constants, and of values that nodes read or write. -/
def namesInUse (g : Graph α) : List String :=
  g.sources ++ g.nodes.flatMap fun n => n.inputs ++ n.outputs

/-- The `k`-th name derived from a base name. -/
def derivedName (base : String) (k : Nat) : String := s!"{base}_{k}"

/-- The first name derived from `base` that is not in use.  Among more candidates than there are
names in use, one is free. -/
def freshName (g : Graph α) (base : String) : String :=
  let used := g.namesInUse
  let k := (List.range (used.length + 1)).find? fun k => !used.contains (derivedName base k)
  derivedName base (k.getD 0)

/-- Two graphs agree if all their parts are equal, where tensors are compared element by element
as numbers. -/
def agrees [BEq α] (g h : Graph α) : Bool :=
  g.name == h.name && g.inputs == h.inputs && g.outputs == h.outputs && g.nodes == h.nodes
    && NameMap.agrees Tensor.agrees g.initializers h.initializers
    && NameMap.agrees (· == ·) g.valueShapes h.valueShapes

end Graph

end ConvFlow
