/-
# Moving scalar multiplications past convolutions

A convolution is linear in its image, whatever its padding, strides, dilations and groups.
Multiplying the image by a single number therefore multiplies the output by that number, and the
multiplication can be done after the convolution instead.  A bias is not multiplied along with
the image, so a convolution with a bias is left alone.
-/
import ConvFlow.Rules.Rule
import ConvFlow.Rules.Site

namespace ConvFlow.Rule

variable {σ α : Type}

/-- Move the multiplication at position `i` past its convolution, if it can be moved. -/
def mulPastConvAt (g : Graph α) (i : Nat) : Option (Graph α) := do
  let site ← g.site? .mul i
  let factor ← g.initializers[site.constant]?
  guard (factor.size == 1)
  let c ← g.nodes[site.conv]?
  guard (c.inputs.length ≤ 2)
  return g.moveAlong site

/-- The rule that moves the first multiplication by a single number that can be moved past the
convolution behind it. -/
def mulPastConv : Rule σ α :=
  ofFunction "move_scalar_mul_past_conv" fun g =>
    (List.range g.nodes.length).findSome? (mulPastConvAt g)

end ConvFlow.Rule
