/-
# Pushing an additive constant through a kernel

A convolution without padding sees every kernel position at every place, so adding a constant to
each input channel adds, to each output channel, the constants weighted by the sums of the
kernels that connect the two.  `foldThroughKernel` computes these output constants.

Sums of floats depend on the order of the terms.  The values of one kernel are summed in eight
lanes (`laneSum`), the input channels one after another.
-/
import ConvFlow.Tensor

namespace ConvFlow.Conv

variable {α : Type} [Element α]

/-- Eight partial sums. -/
structure Lanes (α : Type) where
  /-- The sum of the first values of all blocks. -/
  p0 : α
  /-- The sum of the second values of all blocks. -/
  p1 : α
  /-- The sum of the third values of all blocks. -/
  p2 : α
  /-- The sum of the fourth values of all blocks. -/
  p3 : α
  /-- The sum of the fifth values of all blocks. -/
  p4 : α
  /-- The sum of the sixth values of all blocks. -/
  p5 : α
  /-- The sum of the seventh values of all blocks. -/
  p6 : α
  /-- The sum of the eighth values of all blocks. -/
  p7 : α

namespace Lanes

/-- Nothing summed yet. -/
def zero : Lanes α := ⟨0, 0, 0, 0, 0, 0, 0, 0⟩

/-- The sum of all lanes: each lane is paired with the one four places on. -/
def total (l : Lanes α) : α :=
  0 + (l.p0 + l.p4) + (l.p1 + l.p5) + (l.p2 + l.p6) + (l.p3 + l.p7)

/-- Add whole blocks of eight values to the lanes, then the remaining values to their total. -/
def sum (l : Lanes α) : List α → α
  | x0 :: x1 :: x2 :: x3 :: x4 :: x5 :: x6 :: x7 :: rest =>
    sum ⟨l.p0 + x0, l.p1 + x1, l.p2 + x2, l.p3 + x3,
      l.p4 + x4, l.p5 + x5, l.p6 + x6, l.p7 + x7⟩ rest
  | rest => Element.sumFrom l.total rest

end Lanes

/-- The sum of a list of values in eight lanes. -/
def laneSum (values : List α) : α := Lanes.zero.sum values

/-- The constants of the input channels: a single value stands for all channels, a tensor of
shape `[1, channels, 1, 1]` holds one for each. -/
def channelConstants (addend : Tensor α) (channels : Nat) : Option (Nat → α) :=
  if addend.size = 1 then some fun _ => addend.data.getD 0 0
  else if addend.shape = [1, channels, 1, 1] then some fun c => addend.data.getD c 0
  else none

/-- The sum of the kernel that connects input channel `ci` of a group to output channel `co`. -/
def kernelSum (w : Tensor α) (kernelRows kernelCols co ci : Nat) : α :=
  laneSum ((List.range kernelRows).flatMap fun ky =>
    (List.range kernelCols).map fun kx => w.get [co, ci, ky, kx])

/-- The constants that the output channels gain when `addend` is added to the image, as a tensor
of shape `[1, outChannels, 1, 1]`; there is none if the addend is neither a single value nor one
value for each input channel, or if the weights do not fall into groups. -/
def foldThroughKernel (addend w : Tensor α) (group : Nat) : Option (Tensor α) :=
  match w.shape with
  | [outChannels, perGroup, kernelRows, kernelCols] =>
    if group = 0 ∨ outChannels % group ≠ 0 then none
    else
      (channelConstants addend (perGroup * group)).map fun constant =>
        Tensor.ofFn [1, outChannels, 1, 1] fun idx =>
          let co := idx.getD 1 0
          let first := co / (outChannels / group) * perGroup
          Element.sumFrom Element.negZero ((List.range perGroup).map fun ci =>
            constant (first + ci) * kernelSum w kernelRows kernelCols co ci)
  | _ => none

end ConvFlow.Conv
