/-
# Direct convolution

The output at a place is the sum, over the input channels of the group and over the kernel
positions that meet the image, of image value times weight, plus the bias of the output channel.
Padding is never stored: a kernel position that lies in the padding adds nothing.
-/
import ConvFlow.Tensor
import ConvFlow.Conv.Extent

namespace ConvFlow.Conv

/-- Why a convolution cannot be computed. -/
inductive Error where
  /-- The image does not have four axes. -/
  | inputRank
  /-- The weights do not have four axes. -/
  | weightsRank
  /-- There is no output shape. -/
  | shape (e : ShapeError)
  /-- The bias does not hold one value for each output channel. -/
  | biasLength (got expected : Nat)
  deriving DecidableEq

/-- The wording of an error. -/
def Error.message : Error → String
  | inputRank => "input: ShapeError/IncompatibleShape: incompatible shapes"
  | weightsRank => "weights: ShapeError/IncompatibleShape: incompatible shapes"
  | shape e => e.message
  | biasLength got expected => s!"bias has {got} elements, expected {expected}"

variable {α : Type} [Element α]

/-- What the taps of one window contribute, channel by channel, row by row: the products of
image values and weights for image `n`, whose channels start at `first`, and output channel
`co`. -/
def products (x w : Tensor α) (n first perGroup co : Nat) (rows cols : List (Nat × Nat)) :
    List α :=
  (List.range perGroup).flatMap fun ci =>
    rows.flatMap fun (ky, iy) =>
      cols.map fun (kx, ix) => x.get [n, first + ci, iy, ix] * w.get [co, ci, ky, kx]

/-- The bias of each of `count` output channels; without a bias tensor it is zero. -/
def biasValues (bias : Option (Tensor α)) (count : Nat) : Except Error (Nat → α) :=
  match bias with
  | none => .ok fun _ => 0
  | some b => if b.size = count then .ok fun co => b.data.getD co 0
    else .error (.biasLength b.size count)

/-- The two-dimensional convolution of an image with weights and an optional bias. -/
def conv2d (x w : Tensor α) (bias : Option (Tensor α)) (attrs : Attributes) :
    Except Error (Tensor α) :=
  match x.shape with
  | [_, _, height, width] =>
    match w.shape with
    | [outChannels, perGroup, kernelRows, kernelCols] => do
      let shape ← (outputShape x.shape w.shape attrs).mapError .shape
      let offset ← biasValues bias outChannels
      let rows := { Axis.rows attrs height with kernel := kernelRows }
      let cols := { Axis.cols attrs width with kernel := kernelCols }
      return Tensor.ofFn shape fun idx =>
        match idx with
        | [n, co, oy, ox] =>
          let first := co / (outChannels / attrs.group) * perGroup
          let terms := products x w n first perGroup co (rows.taps oy) (cols.taps ox)
          Element.sumFrom 0 terms + offset co
        | _ => 0
    | _ => .error .weightsRank
  | _ => .error .inputRank

end ConvFlow.Conv
