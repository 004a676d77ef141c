/-
# Moving additions past convolutions

Without padding every place of a convolution sees the whole kernel.  Adding a constant to the
image therefore adds a constant to each output channel, and the addition can be done after the
convolution instead, with the constant pushed through the kernel.  Padding lets the places at the
border see fewer copies of the constant, so padded convolutions are left alone.

The constant may be read by other nodes too.  It is replaced under its own name only if the moved
addition is its only reader; otherwise the new constant gets a fresh name.
-/
import ConvFlow.Conv.KernelSum
import ConvFlow.Rules.Rule
import ConvFlow.Rules.Site

namespace ConvFlow.Rule

variable {σ α : Type}

/-- The name under which the pushed constant of a site is stored. -/
def addendName (g : Graph α) (site : Graph.Site) : String :=
  if (g.consumers site.constant).length = 1 then site.constant else g.freshName site.constant

/-- Give the operation of a site another constant, stored under the given name. -/
def withConstant (g : Graph α) (site : Graph.Site) (name : String) (t : Tensor α) : Graph α :=
  { g with
    initializers := g.initializers.insert name t
    nodes := g.nodes.modify site.op fun n =>
      { n with inputs := n.inputs.set (1 - site.dataSlot) name } }

/-- Move the addition at position `i` past its convolution, if it can be moved. -/
def addPastConvAt [Element α] (g : Graph α) (i : Nat) : Option (Graph α) := do
  let site ← g.site? .add i
  let c ← g.nodes[site.conv]?
  match c.op with
  | .conv attrs =>
    guard !attrs.isPadded
    let addend ← g.initializers[site.constant]?
    let weights ← g.initializers[c.operand 1]?
    let folded ← Conv.foldThroughKernel addend weights attrs.group
    return (withConstant g site (addendName g site) folded).moveAlong site
  | _ => none

/-- The rule that moves the first addition of a constant that can be moved past the convolution
behind it. -/
def addPastConv [Element α] : Rule σ α :=
  ofFunction "move_add_past_conv" fun g =>
    (List.range g.nodes.length).findSome? (addPastConvAt g)

end ConvFlow.Rule
